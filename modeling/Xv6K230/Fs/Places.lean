import Xv6K230.Fs.Inode
import Xv6K230.Lib.Ownership

/-! # Files and the blocks they stand on

The slots through which an inode refers to blocks, the file that an inode stands for, and the fit between slots and
bitmap.
-/

namespace Xv6K230.Fs

/-- The metadata blocks: boot, super, log, inode and bitmap blocks, as `mkfs` lays them out. -/
def Superblock.nmeta (sb : Superblock) : Nat := sb.bmapstart + sb.size / bpb + 1

structure Superblock.Ok (sb : Superblock) : Prop where
  inodes : sb.inodestart + (sb.ninodes + 15) / 16 ≤ sb.bmapstart
  fits : sb.nmeta ≤ sb.size
  word : sb.size ≤ 2 ^ 32
  short : sb.ninodes ≤ 2 ^ 16
  root : 1 < sb.ninodes

def nslots : Nat := 269 -- addrs[] and the entries of the indirect block

/-- The slot for block `bn` of a file. -/
def fileSlot (bn : Nat) : Nat := if bn < 12 then bn else bn + 1

/-- The block number in slot `q` of an inode: up to 12 an element of `addrs`, from 13 on an
entry of the indirect block. -/
def slotAt (disk : Nat → Block) (d : Dinode) (q : Nat) : Nat :=
  if q < 13 then d.addr q
  else if d.addr 12 = 0 then 0
  else (disk (d.addr 12)).getLE (4 * (q - 13)) 4

/-- A file without its blocks: the attributes of the inode and the bytes. -/
structure Node where
  type : UInt16
  major : Int16
  minor : Int16
  nlink : Int16
  size : Nat
  data : Nat → UInt8

def Node.free : Node := ⟨0, 0, 0, 0, 0, fun _ => 0⟩

/-- The byte at `off` of the file with inode `d`; 0 where no block is mapped. -/
def dataAt (disk : Nat → Block) (d : Dinode) (off : Nat) : UInt8 :=
  if off < 268 * 1024 ∧ slotAt disk d (fileSlot (off / 1024)) ≠ 0 then
    (disk (slotAt disk d (fileSlot (off / 1024)))).get (off % 1024)
  else 0

def Dinode.node (d : Dinode) (disk : Nat → Block) : Node :=
  ⟨d.type, d.major, d.minor, d.nlink, d.size.toNat, dataAt disk d⟩

namespace FsState

variable (s : FsState) (m : Nat → Dinode)

def inode (i : Nat) : Dinode := if i < s.sb.ninodes then s.dinode i else Dinode.zero

def Live (i : Nat) : Prop := i < s.sb.ninodes ∧ (m i).type ≠ 0

instance (i : Nat) : Decidable (s.Live m i) := inferInstanceAs (Decidable (_ ∧ _))

def nodes (i : Nat) : Node := if s.Live m i then (m i).node s.disk else Node.free

/-- Where blocks stand: in a slot of an inode, or in the hand of the running call. -/
def place (hand : Option Nat) : Option (Nat × Nat) → Option Nat
  | none => hand
  | some (i, q) =>
    if s.Live m i ∧ q < nslots ∧ slotAt s.disk (m i) q ≠ 0 then some (slotAt s.disk (m i) q) else none

def Used (b : Nat) : Prop := s.sb.nmeta ≤ b ∧ b < s.sb.size ∧ s.bit b = true

structure Owned (hand : Option Nat) : Prop where
  placed : Placement (s.place m hand) s.Used
  low : ∀ b < s.sb.nmeta, s.bit b = true

def Full : Prop :=
  ∀ i, s.Live m i → (m i).size.toNat ≤ 268 * 1024 ∧
    ∀ bn, bn * 1024 < (m i).size.toNat → slotAt s.disk (m i) (fileSlot bn) ≠ 0

end FsState

section

lemma fileSlot_lt {bn : Nat} (h : bn < 268) : fileSlot bn < nslots := by
  unfold fileSlot nslots
  split <;> omega

lemma fileSlot_ne (bn : Nat) : fileSlot bn ≠ 12 := by
  unfold fileSlot
  split <;> omega

lemma fileSlot_inj {a b : Nat} (h : fileSlot a = fileSlot b) : a = b := by
  unfold fileSlot at h
  split at h <;> split at h <;> omega

lemma Dinode.addr_setAddr (d : Dinode) {k v : Nat} (hk : k < 13) (hv : v < 2 ^ 32) (j : Nat) :
    (d.setAddr k v).addr j = if j = k then v else d.addr j := by
  unfold Dinode.addr Dinode.setAddr
  by_cases hj : j = k
  · subst hj
    rw [dif_pos hk, if_pos rfl]
    simpa using hv
  · rw [if_neg hj]
    simp only [hj, if_false]

lemma slotAt_congr {disk disk' : Nat → Block} {d : Dinode}
    (h : d.addr 12 ≠ 0 → disk' (d.addr 12) = disk (d.addr 12)) (q : Nat) : slotAt disk' d q = slotAt disk d q := by
  unfold slotAt
  split
  · rfl
  · split
    · rfl
    · rw [h ‹_›]

lemma slotAt_setAddr {disk : Nat → Block} {d : Dinode} {k v : Nat} (hk : k < 13) (hv : v < 2 ^ 32)
    (hInd : k = 12 → d.addr 12 = 0 ∧ disk v = Bytes.fill 0) (q : Nat) :
    slotAt disk (d.setAddr k v) q = if q = k then v else slotAt disk d q := by
  unfold slotAt
  simp only [Dinode.addr_setAddr d hk hv]
  by_cases hq : q < 13
  · simp only [hq, if_true]
  · have hne : q ≠ k := by omega
    simp only [hq, if_false, hne]
    by_cases h12 : k = 12
    · obtain ⟨hZero, hFill⟩ := hInd h12
      simp [h12, hZero, hFill]
    · have hne' : 12 ≠ k := fun he => h12 he.symm
      simp only [hne', if_false]

lemma slotAt_putLE {disk : Nat → Block} {d : Dinode} {j v : Nat} (hj : j < 256) (hv : v < 2 ^ 32)
    (hInd : d.addr 12 ≠ 0) (q : Nat) :
    slotAt (fun c => if c = d.addr 12 then (disk c).putLE (4 * j) 4 v else disk c) d q =
      if q = 13 + j then v else slotAt disk d q := by
  unfold slotAt
  by_cases hLow : q < 13
  · have hne : q ≠ 13 + j := by omega
    simp only [hLow, hne, if_true, if_false]
  · grind [Nat.add_sub_cancel_left, Bytes.getLE_putLE_same, Nat.mod_eq_of_lt, Bytes.getLE_putLE_of_disjoint]

end

namespace FsState

variable {s t : FsState} {m m' : Nat → Dinode} {hand : Option Nat} {i q a b : Nat}

lemma place_slot : s.place m hand (some (i, q)) =
    if s.Live m i ∧ q < nslots ∧ slotAt s.disk (m i) q ≠ 0 then some (slotAt s.disk (m i) q) else none := rfl

lemma place_some_iff : s.place m hand (some (i, q)) = some b ↔
    s.Live m i ∧ q < nslots ∧ slotAt s.disk (m i) q = b ∧ b ≠ 0 := by
  rw [place_slot]
  constructor
  · grind
  · rintro ⟨hLive, hq, rfl, hne⟩
    exact if_pos ⟨hLive, hq, hne⟩

lemma place_none_iff : s.place m hand (some (i, q)) = none ↔
    (s.Live m i → q < nslots → slotAt s.disk (m i) q = 0) := by
  rw [place_slot]
  constructor
  · intro h hLive hq
    by_contra hne
    rw [if_pos ⟨hLive, hq, hne⟩] at h
    cases h
  · intro h
    apply if_neg
    rintro ⟨hLive, hq, hne⟩
    exact hne (h hLive hq)

lemma Live.congr (h : s.Live m i) (hsb : t.sb = s.sb) (hType : (m' i).type = (m i).type) : t.Live m' i := by
  unfold Live at h ⊢
  rw [hsb, hType]
  exact h

lemma live_congr (hsb : t.sb = s.sb) (hType : (m' i).type = (m i).type) : t.Live m' i ↔ s.Live m i := by
  unfold Live
  rw [hsb, hType]

lemma Used.ne_zero (h : s.Used b) : b ≠ 0 := by
  have hPos : 0 < s.sb.nmeta := Nat.succ_pos _
  have hLow := h.1
  omega

section

variable (hsb : t.sb = s.sb)

include hsb

lemma place_congr (h : ∀ i b, s.place m none (some (i, 12)) = some b → t.disk b = s.disk b) :
    t.place m hand = s.place m hand := by
  funext p
  rcases p with _ | ⟨i, q⟩
  · rfl
  · rw [place_slot, place_slot]
    by_cases hLive : s.Live m i
    · have hInd : (m i).addr 12 ≠ 0 → t.disk ((m i).addr 12) = s.disk ((m i).addr 12) := by
        intro hne
        apply h i
        rw [place_some_iff]
        exact ⟨hLive, by decide, rfl, hne⟩
      simp only [slotAt_congr hInd, live_congr hsb rfl]
    · rw [if_neg (fun hc => hLive ((live_congr hsb rfl).mp hc.1)), if_neg (fun hc => hLive hc.1)]

lemma full_congr (h : ∀ i b, s.place m none (some (i, 12)) = some b → t.disk b = s.disk b) (hFull : s.Full m) :
    t.Full m := by
  intro i hLive
  have hLive' := (live_congr hsb rfl).mp hLive
  obtain ⟨hSize, hSlots⟩ := hFull i hLive'
  refine ⟨hSize, fun bn hbn => ?_⟩
  have hInd : (m i).addr 12 ≠ 0 → t.disk ((m i).addr 12) = s.disk ((m i).addr 12) := by
    intro hne
    apply h i
    rw [place_some_iff]
    exact ⟨hLive', by decide, rfl, hne⟩
  rw [slotAt_congr hInd]
  exact hSlots bn hbn

omit hsb in
lemma node_congr (hLive : s.Live m i) (h : ∀ q b, s.place m none (some (i, q)) = some b → t.disk b = s.disk b) :
    (m i).node t.disk = (m i).node s.disk := by
  unfold Dinode.node
  congr 1
  funext off
  unfold dataAt
  have hInd : (m i).addr 12 ≠ 0 → t.disk ((m i).addr 12) = s.disk ((m i).addr 12) := by
    intro hne
    apply h 12
    rw [place_some_iff]
    exact ⟨hLive, by decide, rfl, hne⟩
  rw [slotAt_congr hInd]
  split
  · rename_i hc
    rw [h (fileSlot (off / 1024))]
    rw [place_some_iff]
    exact ⟨hLive, fileSlot_lt (by omega), rfl, hc.2⟩
  · rfl

lemma nodes_congr (h : ∀ p b, s.place m none (some p) = some b → t.disk b = s.disk b) : t.nodes m = s.nodes m := by
  funext i
  unfold nodes
  by_cases hLive : s.Live m i
  · rw [if_pos hLive, if_pos ((live_congr hsb rfl).mpr hLive)]
    exact node_congr hLive fun q b => h (i, q) b
  · rw [if_neg hLive, if_neg fun hc => hLive ((live_congr hsb rfl).mp hc)]

lemma used_congr (h : ∀ b < s.sb.size, t.bit b = s.bit b) (b : Nat) : t.Used b ↔ s.Used b := by
  unfold Used
  rw [hsb]
  constructor
  · rintro ⟨hLow, hHigh, hBit⟩
    exact ⟨hLow, hHigh, by rw [← h b hHigh, hBit]⟩
  · rintro ⟨hLow, hHigh, hBit⟩
    exact ⟨hLow, hHigh, by rw [h b hHigh, hBit]⟩

end

lemma Owned.used_of (h : s.Owned m hand) (hp : s.place m hand (some (i, q)) = some b) : s.Used b :=
  h.placed.used_of hp

lemma Owned.attach (h : s.Owned m (some a)) (hOk : s.sb.Ok) (hsb : t.sb = s.sb) (hBit : ∀ b < s.sb.size, t.bit b = s.bit b)
    (hLive : s.Live m i) (hq : q < nslots) (hEmpty : slotAt s.disk (m i) q = 0)
    (hType : ∀ j, (m' j).type = (m j).type)
    (hSlot : ∀ j r, s.Live m j → r < nslots →
      slotAt t.disk (m' j) r = if j = i ∧ r = q then a else slotAt s.disk (m j) r) : t.Owned m' none := by
  have hUsed : s.Used a := h.placed.used_of (p := none) rfl
  have hZero : a ≠ 0 := hUsed.ne_zero
  have hPlace : t.place m' none = Function.update (Function.update (s.place m (some a)) none none) (some (i, q)) (some a) := by
    funext p
    rcases p with _ | ⟨j, r⟩
    · rfl
    · grind [Function.update_apply, place_some_iff, place_slot, live_congr]
  constructor
  · rw [hPlace]
    apply Placement.congr _ (used_congr hsb hBit)
    apply h.placed.move rfl
    rw [place_none_iff]
    exact fun _ _ => hEmpty
  · grind [hOk.fits, h.low]

lemma nodes_attach (hsb : t.sb = s.sb) (hAttr : ∀ j, m' j = { m j with addrs := (m' j).addrs })
    (hEmpty : slotAt s.disk (m i) q = 0)
    (hSlot : ∀ j r, s.Live m j → r < nslots →
      slotAt t.disk (m' j) r = if j = i ∧ r = q then a else slotAt s.disk (m j) r)
    (hFill : t.disk a = Bytes.fill 0)
    (hSame : ∀ j r b, r ≠ 12 → s.place m none (some (j, r)) = some b → t.disk b = s.disk b) :
    t.nodes m' = s.nodes m := by
  have hType : ∀ j, (m' j).type = (m j).type := fun j => by rw [hAttr j]
  funext j
  unfold nodes
  by_cases hLive : s.Live m j
  · rw [if_pos hLive, if_pos ((live_congr hsb (hType j)).mpr hLive)]
    unfold Dinode.node
    rw [Node.mk.injEq]
    refine ⟨hType j, by rw [hAttr j], by rw [hAttr j], by rw [hAttr j], by rw [hAttr j], ?_⟩
    funext off
    unfold dataAt
    by_cases hOff : off < 268 * 1024
    · have hr : fileSlot (off / 1024) < nslots := fileSlot_lt (by omega)
      rw [hSlot j _ hLive hr]
      by_cases hp : j = i ∧ fileSlot (off / 1024) = q
      · obtain ⟨rfl, rfl⟩ := hp
        simp [hEmpty, hFill]
      · rw [if_neg hp]
        by_cases hZero : slotAt s.disk (m j) (fileSlot (off / 1024)) = 0
        · simp [hZero]
        · rw [hSame j _ _ (fileSlot_ne _) (place_some_iff.mpr ⟨hLive, hr, rfl, hZero⟩)]
    · rw [if_neg fun hc => hOff hc.1, if_neg fun hc => hOff hc.1]
  · rw [if_neg hLive, if_neg fun hc => hLive ((live_congr hsb (hType j)).mp hc)]

lemma Full.attach (h : s.Full m) (hsb : t.sb = s.sb) (hAttr : ∀ j, m' j = { m j with addrs := (m' j).addrs }) (ha : a ≠ 0)
    (hSlot : ∀ j r, s.Live m j → r < nslots →
      slotAt t.disk (m' j) r = if j = i ∧ r = q then a else slotAt s.disk (m j) r) : t.Full m' := by
  intro j hLive
  have hLive' := (live_congr hsb (by rw [hAttr j])).mp hLive
  obtain ⟨hSize, hSlots⟩ := h j hLive'
  have hEq : (m' j).size = (m j).size := by rw [hAttr j]
  rw [hEq]
  refine ⟨hSize, fun bn hbn => ?_⟩
  rw [hSlot j _ hLive' (fileSlot_lt (by omega))]
  split
  · exact ha
  · exact hSlots bn hbn

end FsState

end Xv6K230.Fs
