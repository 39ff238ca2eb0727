import Xv6K230.Fs.Blocks

/-! # The invariant of the file system

The bitmap fits the slots, no file has a hole, and the inode table caches the inodes.
-/

namespace Xv6K230.Fs

open Prog

/-- An entry of the inode table without its copy of the disk inode. -/
structure Entry where
  dev : Nat
  inum : Nat
  ref : Int
  locked : Bool
  valid : Bool
  deriving DecidableEq

@[simps]
def Inode.entry (i : Inode) : Entry := ⟨i.dev, i.inum, i.ref, i.locked, i.valid⟩

def FsState.entries (s : FsState) (ip : Ip) : Entry := (s.itable ip).entry

structure TableOk (ninodes : Nat) (e : Ip → Entry) : Prop where
  nonneg : ∀ ip, 0 ≤ (e ip).ref
  dev : ∀ ip, 0 < (e ip).ref → (e ip).dev = rootdev
  inum : ∀ ip, 0 < (e ip).ref → 0 < (e ip).inum ∧ (e ip).inum < ninodes
  unique : ∀ ip jp, 0 < (e ip).ref → 0 < (e jp).ref → (e ip).inum = (e jp).inum → ip = jp

def FsState.Cached (s : FsState) (m : Nat → Dinode) : Prop :=
  ∀ ip, 0 < (s.itable ip).ref → (s.itable ip).valid = true →
    (s.itable ip).di = m (s.itable ip).inum ∧ s.Live m (s.itable ip).inum

structure Intact (m : Nat → Dinode) (s : FsState) : Prop where
  ok : s.sb.Ok
  owned : s.Owned m none
  full : s.Full m
  table : TableOk s.sb.ninodes s.entries
  cached : s.Cached m

structure Loaded (s : FsState) (ip : Ip) (i : Nat) : Prop where
  ref : 0 < (s.itable ip).ref
  valid : (s.itable ip).valid = true
  inum : (s.itable ip).inum = i

variable {E : Stop → Prop} {s t : FsState} {m : Nat → Dinode} {ip : Ip} {i k a : Nat}

lemma Intact.di (h : Intact m s) (hip : Loaded s ip i) : (s.itable ip).di = m i := by
  rw [(h.cached ip hip.ref hip.valid).1, hip.inum]

lemma Intact.live (h : Intact m s) (hip : Loaded s ip i) : s.Live m i := by
  have hLive := (h.cached ip hip.ref hip.valid).2
  rwa [hip.inum] at hLive

lemma Intact.low (h : Intact m s) : ∀ b < s.sb.nmeta, s.bit b = true := h.owned.low

lemma Intact.used (h : Intact m s) {q b : Nat} (hp : s.place m none (some (i, q)) = some b) : s.Used b :=
  h.owned.used_of hp

lemma Intact.frame (h : Intact m s) (hsb : t.sb = s.sb) (hEntries : t.entries = s.entries)
    (hBits : ∀ b < s.sb.size, t.bit b = s.bit b)
    (hInd : ∀ i b, s.place m none (some (i, 12)) = some b → t.disk b = s.disk b) (hCached : t.Cached m) : Intact m t where
  ok := hsb ▸ h.ok
  owned := by
    constructor
    · rw [FsState.place_congr hsb hInd]
      exact h.owned.placed.congr (FsState.used_congr hsb hBits)
    · intro b hb
      rw [hsb] at hb
      have hFits := h.ok.fits
      rw [hBits b (by omega)]
      exact h.low b hb
  full := FsState.full_congr hsb hInd h.full
  table := by
    rw [hsb, hEntries]
    exact h.table
  cached := hCached

lemma Intact.withLh (h : Intact m s) (l : List Nat) : Intact m (s.withLh l) :=
  h.frame rfl rfl (fun _ _ => rfl) (fun _ _ _ => rfl) h.cached

/-! ## Allocated blocks -/

lemma Granted.ne_of_used (hg : Granted s t a) {b : Nat} (hb : s.Used b) : b ≠ a := by
  rintro rfl
  have hBit := hb.2.2
  rw [hg.fresh] at hBit
  cases hBit

lemma Granted.disk_of_used (hg : Granted s t a) {b : Nat} (hb : s.Used b) : t.disk b = s.disk b :=
  hg.rest b (hg.ne_of_used hb) (.inr hb.1)

lemma Granted.used_iff (hg : Granted s t a) (hsb : t.sb = s.sb) (b : Nat) : t.Used b ↔ s.Used b ∨ b = a := by
  unfold FsState.Used
  rw [hsb]
  constructor
  · grind [hg.bits]
  · grind [hg.bits, hg.low, hg.high]

lemma Granted.owned (hg : Granted s t a) (hsb : t.sb = s.sb) (h : Intact m s) : t.Owned m (some a) := by
  have hPlace : t.place m (some a) = Function.update (s.place m none) none (some a) := by
    rw [FsState.place_congr hsb fun j b hp => hg.disk_of_used (h.used hp)]
    funext p
    rcases p with _ | ⟨j, r⟩
    · rfl
    · rw [Function.update_of_ne (by simp)]
      rfl
  constructor
  · rw [hPlace]
    apply h.owned.placed.take rfl
    · exact fun hu => hg.ne_of_used hu rfl
    · exact hg.used_iff hsb
  · intro b hb
    rw [hsb] at hb
    have hFits := h.ok.fits
    rw [hg.bits b (by omega), h.low b hb, Bool.or_true]

lemma Intact.granted_lt (h : Intact m s) (hg : Granted s t a) : a < 2 ^ 32 := hg.high.trans_le h.ok.word

/-- Between the allocation of a block and its place in an inode the files are as before. -/
lemma Granted.nodes (hg : Granted s t a) (hsb : t.sb = s.sb) (h : Intact m s) : t.nodes m = s.nodes m :=
  FsState.nodes_congr hsb fun _ _ hp => hg.disk_of_used (h.used hp)

lemma Granted.slotAt (hg : Granted s t a) (h : Intact m s) {j : Nat} (hLive : s.Live m j) (r : Nat) :
    Fs.slotAt t.disk (m j) r = Fs.slotAt s.disk (m j) r := by
  apply slotAt_congr
  intro hne
  apply hg.disk_of_used
  apply h.used (i := j) (q := 12)
  exact FsState.place_some_iff.mpr ⟨hLive, by decide, rfl, hne⟩

end Xv6K230.Fs
