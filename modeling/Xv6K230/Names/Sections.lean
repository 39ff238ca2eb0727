import Xv6K230.Names.Alone
import Xv6K230.Names.Turns

/-! # What the sections do to the files

One lemma for each section of a call on the name space, from any state that callers with counted references can have
left.
-/

namespace Xv6K230.Names

open List (mem_cons_self)
open Finset (erase_insert erase_singleton mem_insert_self mem_singleton_self notMem_empty)
open Multiset (mem_cons_self mem_cons_of_mem)
open Fs Prog
open Function (update_eq_self update_idem update_of_ne update_self)

structure Covers (q : Quota) (sb : Superblock) (I : List Nat) (n : Nat) : Prop where
  map : q.HasMap sb
  inodes : ∀ i ∈ I, q.Has (sb.iblock i)
  room : q.Room n

lemma Covers.free (sb : Superblock) (I : List Nat) (n : Nat) : Covers .free sb I n := ⟨fun _ _ => trivial, fun _ _ => trivial, trivial⟩

def entry (name : Text) (inum : Nat) : Text := (Dirent.mk (UInt16.ofNat inum) name).toBytes

lemma length_entry (name : Text) (inum : Nat) : (entry name inum).length = 16 := Dirent.length_toBytes _

lemma inum_entry {inum : Nat} (name : Text) (h : inum < 2 ^ 16) : (Dirent.ofBytes (entry name inum)).inum.toNat = inum := by
  rw [entry, Dirent.ofBytes_toBytes]
  exact UInt16.toNat_ofNat_of_lt' h

lemma key_entry (name : Text) (inum : Nat) : key (Dirent.ofBytes (entry name inum)).name = key name := by
  rw [entry, Dirent.ofBytes_toBytes]
  exact key_padded name

lemma inRange_put {n : Node} {N off inum : Nat} {name : Text} (h : n.InRange N) (hOff : off % 16 = 0) (hLow : off ≤ n.size)
    (hInum : inum < N) (hShort : N ≤ 2 ^ 16) : (n.put off (entry name inum)).InRange N := by
  intro o ho
  have hMod := ho.1
  rw [Node.slot_put hOff hLow] at ho
  rw [Node.dirent_put (length_entry _ _) hOff hMod]
  split
  · rw [inum_entry _ (hInum.trans_le hShort)]
    exact hInum
  · rename_i hne
    exact h o (ho.resolve_right hne)

/-- A new inode as `create` leaves it; a directory has "." and "..". -/
def newNode (type : UInt16) (major minor : Int16) (i parent : Nat) : Node :=
  if type = tDir then
    ((⟨type, major, minor, 1, 0, fun _ => 0⟩ : Node).put 0 (entry [46] i)).put 16 (entry [46, 46] parent)
  else ⟨type, major, minor, 1, 0, fun _ => 0⟩

/-- `create` makes inode `i` with an entry at byte `off` of directory `dp`. -/
def created (f : Nat → Node) (dp i off : Nat) (name : Text) (type : UInt16) (major minor : Int16) : Nat → Node :=
  let g := Function.update f i (newNode type major minor i dp)
  Function.update g dp { (f dp).put off (entry name i) with nlink := if type = tDir then (f dp).nlink + 1 else (f dp).nlink }

/-- A failed `create` leaves nothing, or an inode without links that somebody else refers to. -/
inductive Fails (N : Nat) (l : Multiset Ref) (type : UInt16) (f : Nat → Node) : (Nat → Node) → Prop where
  | clean : Fails N l type f f
  | orphan (i : Nat) (n : Node) (unused : (f i).type = 0) (new : n.type = type) (unlinked : n.nlink = 0) (range : n.InRange N)
      (held : ∃ r ∈ l, r.inum = i) : Fails N l type f (Function.update f i n)

/-- `sys_unlink` clears the entry at byte `off` of directory `dp`. -/
def cleared (f : Nat → Node) (dp off : Nat) (isDir : Bool) : Nat → Node :=
  Function.update f dp { (f dp).put off (List.replicate 16 0) with nlink := if isDir then (f dp).nlink - 1 else (f dp).nlink }

def relinked (f : Nat → Node) (i : Nat) (g : Int16 → Int16) : Nat → Node :=
  Function.update f i { f i with nlink := g (f i).nlink }

namespace Turn

variable {E : Stop → Prop} {s t : FsState} {sb : Superblock} {l : Multiset Ref} {L : Finset Ip} {f : Nat → Node} {q : Quota}
  {r r' : Ref} {ip dp : Ip} {i off : Nat} {name : Text} {type : UInt16} {major minor : Int16}

lemma add (h : Turn s sb l L f q) (b : Nat) : Turn s sb l L f (q.add b) := by
  obtain ⟨e, hJob, hCounted, hHeld⟩ := h
  exact ⟨e, ⟨hJob.view, hJob.quota.add b⟩, hCounted, hHeld⟩

lemma files (h : Turn s sb l L f q) : s.files = f := by
  obtain ⟨e, hJob, -⟩ := h
  exact hJob.view.files

lemma short (h : Turn s sb l L f q) : sb.ninodes ≤ 2 ^ 16 := by
  obtain ⟨e, hJob, -⟩ := h
  rw [← hJob.view.sb]
  exact hJob.view.consistent.ok.short

lemma eq_free (h : Turn s sb l L f q) (hType : (f i).type = 0) : f i = Node.free := by
  rw [← h.files] at hType ⊢
  by_cases hLive : s.Live s.inode i
  · rw [FsState.files_of_live hLive] at hType
    exact absurd hType hLive.2
  · exact if_neg hLive

lemma getInode_held (h : Turn s sb l L f q) (hr : r ∈ l) :
    wp (Fs.getInode r.ip) E (fun x t => t = s ∧ x.dev = rootdev ∧ x.inum = r.inum) s := by
  obtain ⟨e, hJob, hCounted, -⟩ := h
  rw [wp_getInode]
  refine ⟨rfl, ?_, ?_⟩
  · rw [hJob.view.dev]
    exact hJob.table.dev r.ip (hCounted.pos hr)
  · rw [hJob.view.inum, hCounted.inum r hr]

variable (hE : q.Tame E)

include hE

lemma iunlockput (h : Turn s sb (r ::ₘ l) L f q) (hL : r.ip ∈ L) (hCover : Covers q sb [r.inum] 0) :
    wp (Fs.iunlockput r.ip) E (fun _ t => ∃ f', Drops l { r with loaded := true } f f' ∧ Turn t sb l (L.erase r.ip) f' q) s := by
  have hLoaded := h.load hL true
  unfold Fs.iunlockput
  apply wp_call (iunlock (r := { r with loaded := true }) hE hLoaded (mem_cons_self _ l))
  intro _ t ht
  exact iput hE ht (fun hIn => absurd hIn (Finset.notMem_erase _ _)) fun _ _ =>
    ⟨hCover.map, hCover.inodes _ mem_cons_self, hCover.room⟩

lemma setLinks (h : Turn s sb l L f q) (hr : r ∈ l) (hL : r.ip ∈ L) (hBlock : q.Has (sb.iblock r.inum)) (hRoom : q.Room 0)
    (g : Int16 → Int16) :
    wp (modDi r.ip fun d => { d with nlink := g d.nlink }) E (fun _ t => wp (iupdate r.ip) E (fun _ u =>
      Turn u sb l L (relinked f r.inum g) q) t) s :=
  h.setAttr hE hr hL hBlock hRoom (fun d => { d with nlink := g d.nlink }) (fun n => { n with nlink := g n.nlink }) (fun _ => ⟨rfl, rfl, rfl⟩) fun _ _ => rfl

/-! ## Walking a path -/

lemma walkStart (h : Turn s sb l ∅ f q) (hr : r ∈ l) (hRoot : 1 < sb.ninodes) (absolute : Bool) :
    wp (Names.walkStart r.ip absolute) E
      (fun ip t => Turn t sb (⟨ip, if absolute then rootino else r.inum, false⟩ ::ₘ l) ∅ f q) s := by
  unfold Names.walkStart
  cases absolute with
  | true => exact h.iget hE ⟨Nat.one_pos, hRoot⟩
  | false =>
    apply wp_post (h.idup hr)
    rintro _ t ⟨rfl, ht⟩
    exact ht

lemma walkStep (h : Turn s sb l ∅ f q) (hr : r ∈ l) (hNoType : (f r.inum).type = 0 → E .ilockNoType)
    (hRange : (f r.inum).type = tDir → (f r.inum).InRange sb.ninodes) (name : Text) (last : Bool) :
    wp (Names.walkStep r.ip name last) E (fun res t => (f r.inum).type ≠ 0 ∧
      match res with
      | none => ((f r.inum).type = tDir → last = false ∧ ∀ off, ¬ (f r.inum).Names off name) ∧ Turn t sb l ∅ f q
      | some none => (f r.inum).type = tDir ∧ last = true ∧ Turn t sb l ∅ f q
      | some (some next) => (f r.inum).type = tDir ∧ last = false ∧ ∃ off, (f r.inum).Names off name ∧
          Turn t sb (⟨next, ((f r.inum).dirent off).inum.toNat, false⟩ ::ₘ l) ∅ f q) s := by
  unfold Names.walkStep
  apply wp_call (h.ilock hE hr hNoType)
  rintro _ t ⟨-, hType, ht⟩
  have hIn : r.ip ∈ insert r.ip (∅ : Finset Ip) := mem_insert_self _ _
  have hErase : (insert r.ip (∅ : Finset Ip)).erase r.ip = ∅ := erase_insert (notMem_empty _)
  apply wp_call (ht.getInode hr hIn)
  rintro x u ⟨rfl, -, -, hx, -⟩
  simp only [hType, ne_eq, not_false_eq_true, true_and]
  rw [hx, wp_ite]
  constructor
  · intro hNot
    apply wp_call (ht.iunlock hE hr)
    intro _ v hv
    rw [hErase] at hv
    exact wp_val ⟨fun hDir => absurd hDir hNot, hv⟩
  · intro hDir
    rw [not_not] at hDir
    simp only [hDir, true_and, forall_const]
    rw [wp_ite]
    constructor
    · intro hLast
      apply wp_call (ht.iunlock hE hr)
      intro _ v hv
      rw [hErase] at hv
      exact wp_val ⟨hLast, hv⟩
    · intro hLast
      rw [Bool.not_eq_true] at hLast
      apply wp_call (ht.dirlookup hE hr hIn hRange name)
      rintro (_ | ⟨next, off⟩) v ⟨-, hv⟩
      · obtain ⟨rfl, hAbsent⟩ := hv
        apply wp_call (ht.iunlock hE hr)
        intro _ w hw
        rw [hErase] at hw
        exact wp_val ⟨⟨hLast, hAbsent⟩, hw⟩
      · obtain ⟨hNames, hv⟩ := hv
        apply wp_call (hv.iunlock hE (mem_cons_of_mem hr))
        intro _ w hw
        rw [hErase] at hw
        exact wp_val ⟨hLast, off, hNames, hw⟩

lemma look (h : Turn s sb l ∅ f q) (hr : r ∈ l) (hNoType : (f r.inum).type = 0 → E .ilockNoType) :
    wp (Names.look r.ip) E (fun _ t => (f r.inum).type ≠ 0 ∧ Turn t sb l ∅ f q) s := by
  unfold Names.look
  apply wp_call (h.ilock hE hr hNoType)
  rintro _ t ⟨-, hType, ht⟩
  apply wp_post (ht.iunlock hE hr)
  intro _ u hu
  rw [erase_insert (notMem_empty _)] at hu
  exact ⟨hType, hu⟩

/-! ## Making an inode -/

lemma enter (h : Turn s sb (r ::ₘ l) ∅ f q) (hNoType : (f r.inum).type = 0 → E .ilockNoType) :
    wp (Names.enter r.ip) E (fun res t => (f r.inum).type ≠ 0 ∧ res = decide ((f r.inum).type = tDir) ∧
      Turn t sb ({ r with loaded := true } ::ₘ l) ∅ f q) s := by
  unfold Names.enter
  apply wp_call (h.ilock hE (mem_cons_self _ _) hNoType)
  rintro _ t ⟨-, hType, ht⟩
  apply wp_call (ht.getInode (mem_cons_self _ _) (mem_insert_self _ _))
  rintro x u ⟨rfl, -, -, hx, -⟩
  have ht := ht.load (mem_insert_self _ _) true
  apply wp_call (ht.iunlock hE (mem_cons_self _ _))
  intro _ v hv
  rw [erase_insert (notMem_empty _)] at hv
  rw [wp_pure, hx]
  exact ⟨hType, rfl, hv⟩

lemma dotsIn (h : Turn s sb l L f q) (hr : r ∈ l) (hL : r.ip ∈ L) {parent : Nat} (hParent : parent < sb.ninodes)
    (hNew : f r.inum = ⟨type, major, minor, 1, 0, fun _ => 0⟩) (hCover : Covers q sb [r.inum] 4) :
    wp (Names.dotsIn r.ip (type = tDir) r.inum parent) E (fun res t => ∃ n, n.type = type ∧ n.InRange sb.ninodes ∧
      (res = true → n = newNode type major minor r.inum parent) ∧ Turn t sb l L (Function.update f r.inum n) (q.use 4)) s := by
  have hInum := hCover.inodes r.inum mem_cons_self
  have hRange := h.range hr
  have hEmpty : (f r.inum).InRange sb.ninodes := by
    rintro off ⟨-, hEnd⟩
    rw [hNew] at hEnd
    simp at hEnd
  unfold Names.dotsIn
  by_cases hDir : type = tDir
  · rw [if_pos (decide_eq_true hDir)]
    apply wp_call (h.dirlink hE hr hL (fun _ => hEmpty) hCover.map hInum (hCover.room.mono (by decide)) [46] r.inum)
    rintro _ t ⟨-, ⟨rfl, ht⟩ | ⟨rfl, -, off, hVacant, ht⟩⟩
    · rw [if_neg Bool.false_ne_true]
      refine wp_val ⟨f r.inum, by rw [hNew], hEmpty, nofun, ?_⟩
      rw [update_eq_self, ← Quota.use_use (n := 2) (m := 2)]
      exact ht.use 2
    · obtain rfl : off = 0 := by
        have hLow := hVacant.low
        rw [hNew] at hLow
        exact Nat.le_zero.mp hLow
      obtain ⟨n, hn⟩ : ∃ n, n = (f r.inum).put 0 (entry [46] r.inum) := ⟨_, rfl⟩
      obtain ⟨g, hg⟩ : ∃ g, g = Function.update f r.inum n := ⟨_, rfl⟩
      have hAt : g r.inum = n := by rw [hg, update_self]
      have hSize : n.size = 16 := by
        rw [hn, hNew]
        rfl
      have hDot : (n.dirent 0).inum.toNat = r.inum := by
        rw [hn, Node.dirent_put (length_entry _ _) rfl rfl, if_pos rfl, inum_entry _ (hRange.2.trans_le h.short)]
      have hOne : n.InRange sb.ninodes := hn ▸ inRange_put hEmpty rfl (Nat.zero_le _) hRange.2 h.short
      change Turn t sb l L (Function.update f r.inum ((f r.inum).put 0 (entry [46] r.inum))) (q.use 2) at ht
      rw [← hn, ← hg] at ht
      rw [if_pos rfl]
      apply wp_post (ht.dirlink (hE.use 2) hr hL (fun _ => hAt ▸ hOne) (Quota.hasMap_use.mpr hCover.map) (Quota.has_use.mpr hInum)
        (Quota.Room.use hCover.room) [46, 46] parent)
      rw [hAt]
      rintro _ u ⟨-, ⟨rfl, hu⟩ | ⟨rfl, -, off, hVacant', hu⟩⟩
      · rw [Quota.use_use, hg] at hu
        exact ⟨n, by rw [hn, hNew]; rfl, hOne, nofun, hu⟩
      · obtain rfl : off = 16 := by
          have hLow := hVacant'.low
          have hMod := hVacant'.aligned
          by_contra hne
          obtain rfl : off = 0 := by omega
          have hZero := hVacant'.unused ⟨rfl, by omega⟩
          rw [hZero] at hDot
          exact hRange.1.ne hDot
        rw [Quota.use_use, hg, update_idem] at hu
        refine ⟨_, ?_, inRange_put hOne rfl hVacant'.low hParent h.short, fun _ => ?_, hu⟩
        · rw [hn, hNew]
          rfl
        · rw [hn, hNew, newNode, if_pos hDir]
  · rw [if_neg (by simpa using hDir)]
    refine wp_val ⟨f r.inum, by rw [hNew], hEmpty, fun _ => hNew.trans (if_neg hDir).symm, ?_⟩
    rw [update_eq_self]
    exact h.use 4

lemma entryIn (h : Turn s sb l L f q) (hr : r ∈ l) (hL : r.ip ∈ L) (hRange : (f r.inum).type = tDir → (f r.inum).InRange sb.ninodes)
    (hCover : Covers q sb [r.inum] 2) (name : Text) (inum : Nat) (ok : Bool) :
    wp (Names.entryIn r.ip name inum ok) E (fun res t =>
      (res = false ∧ Turn t sb l L f (q.use 2)) ∨
      (res = true ∧ ok = true ∧ (∀ off, ¬ (f r.inum).Names off name) ∧ ∃ off, (f r.inum).Vacant off ∧
        Turn t sb l L (Function.update f r.inum ((f r.inum).put off (entry name inum))) (q.use 2))) s := by
  unfold Names.entryIn
  cases ok with
  | false =>
    rw [if_neg Bool.false_ne_true]
    exact wp_val (.inl ⟨rfl, h.use 2⟩)
  | true =>
    rw [if_pos rfl]
    apply wp_post (h.dirlink hE hr hL hRange hCover.map (hCover.inodes _ mem_cons_self) hCover.room name inum)
    rintro _ t ⟨-, ⟨rfl, ht⟩ | ⟨rfl, hAbsent, off, hVacant, ht⟩⟩
    · exact .inl ⟨rfl, ht⟩
    · exact .inr ⟨rfl, rfl, hAbsent, off, hVacant, ht⟩

lemma parentUp (h : Turn s sb l L f q) (hr : r ∈ l) (hL : r.ip ∈ L) (hCover : Covers q sb [r.inum] 0) (isDir : Bool) :
    wp (Names.parentUp r.ip isDir) E (fun _ t => Turn t sb l L (Function.update f r.inum
      { f r.inum with nlink := if isDir then (f r.inum).nlink + 1 else (f r.inum).nlink }) q) s := by
  unfold Names.parentUp
  cases isDir with
  | false =>
    rw [if_neg Bool.false_ne_true, if_neg Bool.false_ne_true, update_eq_self]
    exact wp_val h
  | true =>
    rw [if_pos rfl, if_pos rfl, wp_bind]
    exact h.setLinks hE hr hL (hCover.inodes _ mem_cons_self) hCover.room (· + 1)

omit hE in
lemma ne_of_inum_ne (h : Turn s sb l L f q) (hr : r ∈ l) (hr' : r' ∈ l) (hne : r'.inum ≠ r.inum) : r'.ip ≠ r.ip :=
  fun hip => hne (h.inum_eq hr' hr hip)

lemma createEnd_failed {n : Node} (hIn : n.InRange sb.ninodes) (h : Turn s sb (r' ::ₘ r ::ₘ l) (insert r'.ip {r.ip}) (Function.update f r'.inum n) q)
    (hne : r'.inum ≠ r.inum) (hFree : f r'.inum = Node.free) (hType : n.type = type) (hCover : Covers q sb [r'.inum, r.inum] 0)
    (isDir : Bool) :
    wp (createEnd r.ip r'.ip isDir false) E (fun res t => res = none ∧ ∃ f1 f', Fails sb.ninodes l type f f1 ∧
      Drops l { r with loaded := true } f1 f' ∧ Turn t sb l ∅ f' q) s := by
  have hMem' : r' ∈ r' ::ₘ r ::ₘ l := mem_cons_self _ _
  have hMem : r ∈ r' ::ₘ r ::ₘ l := mem_cons_of_mem (mem_cons_self _ _)
  have hip := ne_of_inum_ne h hMem hMem' hne
  have hCover' : Covers q sb [r'.inum] 0 := ⟨hCover.map, fun i hi => hCover.inodes i (by simp_all), hCover.room⟩
  have hErase : (insert r'.ip ({r.ip} : Finset Ip)).erase r'.ip = {r.ip} := erase_insert (by simpa using hip)
  unfold createEnd
  rw [if_neg Bool.false_ne_true]
  apply wp_call (h.setLinks hE hMem' (mem_insert_self _ _) (hCover'.inodes _ mem_cons_self) hCover'.room (fun _ => 0))
  intro _ t0 ht0
  apply wp_call ht0
  intro _ t ht
  rw [relinked, update_self, update_idem] at ht
  apply wp_call (ht.iunlockput hE (mem_insert_self _ _) hCover')
  rintro _ u ⟨f1, hDrop, hu⟩
  rw [hErase] at hu
  have hFails : Fails sb.ninodes l type f f1 := by
    cases hDrop with
    | free =>
      rw [update_idem, ← hFree, update_eq_self]
      exact .clean
    | keep hKeep =>
      have hHeld : ∃ x ∈ l, x.inum = r'.inum := by
        rcases hKeep with ⟨x, hx, hxip⟩ | hLoaded | hLink
        · rcases Multiset.mem_cons.mp hx with rfl | hx
          · exact absurd hxip.symm hip
          · exact ⟨x, hx, ht.inum_eq (mem_cons_of_mem (mem_cons_of_mem hx)) hMem' hxip⟩
        · cases hLoaded
        · simp at hLink
      exact .orphan r'.inum _ (by rw [hFree]; rfl) hType rfl hIn hHeld
  apply wp_call (hu.iunlockput hE (mem_singleton_self _) ⟨hCover.map, fun i hi => hCover.inodes i (by simp_all), hCover.room⟩)
  rintro _ v ⟨f', hDrop', hv⟩
  rw [erase_singleton] at hv
  exact wp_val ⟨rfl, f1, f', hFails, hDrop', hv⟩

lemma createEnd_made (h : Turn s sb (r' ::ₘ r ::ₘ l) (insert r'.ip {r.ip}) f q) (hne : r'.inum ≠ r.inum)
    (hCover : Covers q sb [r.inum] 0) (isDir : Bool) :
    wp (createEnd r.ip r'.ip isDir true) E (fun res t => res = some r'.ip ∧ ∃ f',
      Drops ({ r' with loaded := true } ::ₘ l) { r with loaded := true } (Function.update f r.inum
        { f r.inum with nlink := if isDir then (f r.inum).nlink + 1 else (f r.inum).nlink }) f' ∧
      Turn t sb ({ r' with loaded := true } ::ₘ l) {r'.ip} f' q) s := by
  have hMem' : r' ∈ r' ::ₘ r ::ₘ l := mem_cons_self _ _
  have hMem : r ∈ r' ::ₘ r ::ₘ l := mem_cons_of_mem (mem_cons_self _ _)
  have hip := ne_of_inum_ne h hMem hMem' hne
  have hErase : (insert r'.ip ({r.ip} : Finset Ip)).erase r.ip = {r'.ip} := by
    rw [Finset.erase_insert_of_ne hip, erase_singleton, insert_empty_eq]
  have hIn : r.ip ∈ insert r'.ip ({r.ip} : Finset Ip) := Finset.mem_insert_of_mem (mem_singleton_self _)
  unfold createEnd
  rw [if_pos rfl]
  apply wp_call (h.parentUp hE hMem hIn hCover isDir)
  intro _ t ht
  have ht := ht.load (mem_insert_self _ _) true
  rw [Multiset.cons_swap] at ht
  apply wp_call (ht.iunlockput hE hIn hCover)
  rintro _ u ⟨f', hDrop, hu⟩
  rw [hErase] at hu
  exact wp_val ⟨rfl, f', hDrop, hu⟩

lemma createIn (h : Turn s sb (r ::ₘ l) {r.ip} f q) (hDir : (f r.inum).type = tDir) (hRange : (f r.inum).InRange sb.ninodes)
    (hCover : Covers q sb [r.inum] 7) (name : Text) (hType : type ≠ 0) (major minor : Int16) :
    wp (Fs.createIn r.ip name type major minor) E (fun res t => ∃ b,
      match res with
      | none => ∃ f1 f', Fails sb.ninodes l type f f1 ∧ Drops l { r with loaded := true } f1 f' ∧ Turn t sb l ∅ f' ((q.add b).use 6)
      | some ip => ∃ i off f', (f i).type = 0 ∧ (∀ o, ¬ (f r.inum).Names o name) ∧ (f r.inum).Vacant off ∧
          Drops (⟨ip, i, true⟩ ::ₘ l) { r with loaded := true } (created f r.inum i off name type major minor) f' ∧
          Turn t sb (⟨ip, i, true⟩ ::ₘ l) {ip} f' ((q.add b).use 6)) s := by
  have hMem : r ∈ r ::ₘ l := mem_cons_self _ _
  have hHas := hCover.inodes r.inum mem_cons_self
  rw [createIn_eq]
  apply wp_call (h.getInode hMem (mem_singleton_self _))
  rintro d t ⟨rfl, hDev, hInum, -, -⟩
  rw [hDev, hInum]
  apply wp_call (h.ialloc hE hType (hCover.room.mono (by decide)))
  rintro (_ | ip) t ht
  · rw [ht.1]
    apply wp_call (h.iunlockput hE (mem_singleton_self _) ⟨hCover.map, hCover.inodes, hCover.room.mono (by decide)⟩)
    rintro _ u ⟨f', hDrop, hu⟩
    rw [erase_singleton] at hu
    exact wp_val ⟨0, f, f', .clean, hDrop, (hu.add 0).use 6⟩
  · obtain ⟨i, hPos, hLt, hFree, ht⟩ := ht
    have hEqFree := h.eq_free hFree
    have hne : i ≠ r.inum := by
      rintro rfl
      rw [hDir] at hFree
      cases hFree
    obtain ⟨q', hq'⟩ : ∃ q', q' = q.add (sb.iblock i) := ⟨_, rfl⟩
    have hE' : q'.Tame E := hq' ▸ hE.add _
    have hMap : q'.HasMap sb := hq' ▸ hCover.map.add _
    have hHasNew : q'.Has (sb.iblock i) := hq' ▸ Quota.has_add_self
    have hHasDir : q'.Has (sb.iblock r.inum) := hq' ▸ hHas.add _
    have hRoom : q'.Room 6 := hq' ▸ Quota.Room.add hCover.room _
    rw [← hq'] at ht
    obtain ⟨r', hr'⟩ : ∃ r' : Ref, r' = ⟨ip, i, false⟩ := ⟨_, rfl⟩
    have hip : ip = r'.ip := by rw [hr']
    have hi : i = r'.inum := by rw [hr']
    rw [← hr'] at ht
    have hMem' : r' ∈ r' ::ₘ r ::ₘ l := mem_cons_self _ _
    have hMemDir : r ∈ r' ::ₘ r ::ₘ l := mem_cons_of_mem hMem
    have hIn' : r'.ip ∈ insert r'.ip ({r.ip} : Finset Ip) := mem_insert_self _ _
    have hIn : r.ip ∈ insert r'.ip ({r.ip} : Finset Ip) := Finset.mem_insert_of_mem (mem_singleton_self _)
    have hLoaded : (⟨r'.ip, r'.inum, true⟩ : Ref) = { r' with loaded := true } := rfl
    simp only [hip]
    rw [hi] at ht hne hFree hEqFree hHasNew
    -- the new inode is locked and gets its attributes
    apply wp_call (ht.ilock hE' hMem' fun hZero => absurd hZero (by rw [update_self]; exact hType))
    rintro _ u ⟨-, -, hu⟩
    apply wp_call (hu.setAttr hE' hMem' hIn' hHasNew (hRoom.mono (by decide))
      (fun x => { x with major := major, minor := minor, nlink := 1 }) (fun n => { n with major := major, minor := minor, nlink := 1 })
      (fun _ => ⟨rfl, rfl, rfl⟩) fun _ _ => rfl)
    intro _ v0 hv0
    apply wp_call hv0
    intro _ v hv
    rw [update_self, update_idem] at hv
    apply wp_call (hv.getInode hMem' hIn')
    rintro x w ⟨rfl, -, hx, -, -⟩
    rw [hx]
    apply wp_call (hv.dotsIn hE' hMem' hIn' (h.range hMem).2 (by rw [update_self]) ⟨hMap, by simpa using hHasNew, hRoom.mono (by decide)⟩)
    rintro ok w1 ⟨n, hn, hNewRange, hNew, hw1⟩
    rw [update_idem] at hw1
    have hAt : Function.update f r'.inum n r.inum = f r.inum := update_of_ne hne.symm _ _
    have hMore := hw1.entryIn (hE'.use 4) hMemDir hIn (fun _ => by rw [hAt]; exact hRange)
      ⟨Quota.hasMap_use.mpr hMap, by simpa using hHasDir, Quota.Room.use hRoom⟩ name r'.inum ok
    rw [hAt, Quota.use_use] at hMore
    have hCoverEnd : Covers (q'.use 6) sb [r'.inum, r.inum] 0 :=
      ⟨Quota.hasMap_use.mpr hMap, by simpa using ⟨hHasNew, hHasDir⟩, Quota.Room.use (hRoom.mono (by decide))⟩
    apply wp_call hMore
    rintro _ w2 (⟨rfl, hw2⟩ | ⟨rfl, rfl, hAbsent, off, hVacant, hw2⟩)
    · apply wp_post (createEnd_failed (hE'.use 6) hNewRange hw2 hne hEqFree hn hCoverEnd _)
      rintro _ w3 ⟨rfl, f1, f', hFails, hDrop, hw3⟩
      rw [hq'] at hw3
      exact ⟨_, f1, f', hFails, hDrop, hw3⟩
    · apply wp_post (hw2.createEnd_made (hE'.use 6) hne
        ⟨hCoverEnd.map, fun j hj => hCoverEnd.inodes j (List.mem_cons_of_mem _ hj), hCoverEnd.room⟩ _)
      rintro _ w3 ⟨rfl, f', hDrop, hw3⟩
      rw [hq', ← hLoaded] at hw3
      refine ⟨_, r'.inum, off, f', hFree, hAbsent, hVacant, ?_, hw3⟩
      rw [update_self, update_idem, hNew rfl, ← hLoaded] at hDrop
      have hSame : (if decide (type = tDir) = true then (f r.inum).nlink + 1 else (f r.inum).nlink) =
          if type = tDir then (f r.inum).nlink + 1 else (f r.inum).nlink := by simp
      simp only [Node.put, hSame] at hDrop
      exact hDrop

lemma createAt (h : Turn s sb (r ::ₘ l) ∅ f q) (hNoType : (f r.inum).type = 0 → E .ilockNoType)
    (hRange : (f r.inum).type = tDir → (f r.inum).InRange sb.ninodes) (hCover : Covers q sb [r.inum] 7) (name : Text)
    (hType : type ≠ 0) (major minor : Int16) :
    wp (Names.createAt r.ip name type major minor) E (fun res t => (f r.inum).type = tDir ∧ ∃ b,
      match res with
      | .failed => (∀ o, ¬ (f r.inum).Names o name) ∧ ∃ f1 f', Fails sb.ninodes l type f f1 ∧ Drops l { r with loaded := true } f1 f' ∧
          Turn t sb l ∅ f' ((q.add b).use 6)
      | .found ip => ∃ off, (f r.inum).Names off name ∧
          Turn t sb (⟨ip, ((f r.inum).dirent off).inum.toNat, false⟩ ::ₘ r ::ₘ l) ∅ f ((q.add b).use 6)
      | .made ip => ∃ i off f', (f i).type = 0 ∧ (∀ o, ¬ (f r.inum).Names o name) ∧ (f r.inum).Vacant off ∧
          Drops (⟨ip, i, true⟩ ::ₘ l) { r with loaded := true } (created f r.inum i off name type major minor) f' ∧
          Turn t sb (⟨ip, i, true⟩ ::ₘ l) {ip} f' ((q.add b).use 6)) s := by
  have hMem : r ∈ r ::ₘ l := mem_cons_self _ _
  unfold Names.createAt
  apply wp_call (h.ilock hE hMem hNoType)
  rintro _ t ⟨-, -, ht⟩
  rw [insert_empty_eq] at ht
  apply wp_call (ht.dirlookup hE hMem (mem_singleton_self _) hRange name)
  rintro (_ | ⟨ip, off⟩) u ⟨hDir, hu⟩
  · obtain ⟨rfl, hAbsent⟩ := hu
    apply wp_call (ht.createIn hE hDir (hRange hDir) hCover name hType major minor)
    rintro (_ | ip) v ⟨b, hv⟩
    · exact wp_val ⟨hDir, b, hAbsent, hv⟩
    · exact wp_val ⟨hDir, b, hv⟩
  · obtain ⟨hNames, hu⟩ := hu
    apply wp_call (hu.iunlock hE (mem_cons_of_mem hMem))
    intro _ v hv
    rw [erase_singleton] at hv
    exact wp_val ⟨hDir, 0, off, hNames, (hv.add 0).use 6⟩

/-! ## Links -/

lemma linkUp (h : Turn s sb l ∅ f q) (hr : r ∈ l) (hNoType : (f r.inum).type = 0 → E .ilockNoType) (hCover : Covers q sb [r.inum] 0) :
    wp (Names.linkUp r.ip) E (fun res t => (f r.inum).type ≠ 0 ∧
      ((res = false ∧ (f r.inum).type = tDir ∧ Turn t sb l ∅ f q) ∨
      (res = true ∧ (f r.inum).type ≠ tDir ∧ Turn t sb l ∅ (relinked f r.inum (· + 1)) q))) s := by
  unfold Names.linkUp
  apply wp_call (h.ilock hE hr hNoType)
  rintro _ t ⟨-, hType, ht⟩
  have hIn : r.ip ∈ insert r.ip (∅ : Finset Ip) := mem_insert_self _ _
  have hErase : (insert r.ip (∅ : Finset Ip)).erase r.ip = ∅ := erase_insert (notMem_empty _)
  apply wp_call (ht.getInode hr hIn)
  rintro x u ⟨rfl, -, -, hx, -⟩
  rw [hx, wp_ite]
  constructor
  · intro hDir
    apply wp_call (ht.iunlock hE hr)
    intro _ v hv
    rw [hErase] at hv
    exact wp_val ⟨hType, .inl ⟨rfl, hDir, hv⟩⟩
  · intro hDir
    apply wp_call (ht.setLinks hE hr hIn (hCover.inodes _ mem_cons_self) hCover.room (· + 1))
    intro _ v0 hv0
    apply wp_call hv0
    intro _ v hv
    apply wp_call (hv.iunlock hE hr)
    intro _ w hw
    rw [hErase] at hw
    exact wp_val ⟨hType, .inr ⟨rfl, hDir, hw⟩⟩

lemma linkDown (h : Turn s sb l ∅ f q) (hr : r ∈ l) (hNoType : (f r.inum).type = 0 → E .ilockNoType) (hCover : Covers q sb [r.inum] 0) :
    wp (Names.linkDown r.ip) E (fun _ t => (f r.inum).type ≠ 0 ∧ Turn t sb l ∅ (relinked f r.inum (· - 1)) q) s := by
  unfold Names.linkDown
  apply wp_call (h.ilock hE hr hNoType)
  rintro _ t ⟨-, hType, ht⟩
  apply wp_call (ht.setLinks hE hr (mem_insert_self _ _) (hCover.inodes _ mem_cons_self) hCover.room (· - 1))
  intro _ u0 hu0
  apply wp_call hu0
  intro _ u hu
  apply wp_post (hu.iunlock hE hr)
  intro _ v hv
  rw [erase_insert (notMem_empty _)] at hv
  exact ⟨hType, hv⟩

lemma linkIn (h : Turn s sb l ∅ f q) (hr : r ∈ l) (hr' : r' ∈ l) (hNoType : (f r.inum).type = 0 → E .ilockNoType)
    (hRange : (f r.inum).type = tDir → (f r.inum).InRange sb.ninodes) (hCover : Covers q sb [r.inum] 2) (name : Text) :
    wp (Names.linkIn r.ip r'.ip name) E (fun res t => (f r.inum).type = tDir ∧
      ((res = false ∧ Turn t sb l ∅ f (q.use 2)) ∨
      (res = true ∧ (∀ o, ¬ (f r.inum).Names o name) ∧ ∃ off, (f r.inum).Vacant off ∧
        Turn t sb l ∅ (Function.update f r.inum ((f r.inum).put off (entry name r'.inum))) (q.use 2)))) s := by
  unfold Names.linkIn
  apply wp_call (h.ilock hE hr hNoType)
  rintro _ t ⟨-, -, ht⟩
  have hIn : r.ip ∈ insert r.ip (∅ : Finset Ip) := mem_insert_self _ _
  have hErase : (insert r.ip (∅ : Finset Ip)).erase r.ip = ∅ := erase_insert (notMem_empty _)
  apply wp_call (ht.getInode_held hr)
  rintro d u ⟨rfl, hDev, -⟩
  apply wp_call (ht.getInode_held hr')
  rintro i u ⟨rfl, hDev', hInum⟩
  rw [hDev, hDev', hInum, if_neg (not_not.mpr rfl)]
  apply wp_call (ht.dirlink hE hr hIn hRange hCover.map (hCover.inodes _ mem_cons_self) hCover.room name r'.inum)
  rintro _ v ⟨hDir, ⟨rfl, hv⟩ | ⟨rfl, hAbsent, off, hVacant, hv⟩⟩
  · apply wp_call (hv.iunlock (hE.use 2) hr)
    intro _ w hw
    rw [hErase] at hw
    exact wp_val ⟨hDir, .inl ⟨rfl, hw⟩⟩
  · apply wp_call (hv.iunlock (hE.use 2) hr)
    intro _ w hw
    rw [hErase] at hw
    exact wp_val ⟨hDir, .inr ⟨rfl, hAbsent, off, hVacant, hw⟩⟩

lemma parentDown (h : Turn s sb l L f q) (hr : r ∈ l) (hL : r.ip ∈ L) (hCover : Covers q sb [r.inum] 0) (isDir : Bool) :
    wp (Names.parentDown r.ip isDir) E (fun _ t => Turn t sb l L (Function.update f r.inum
      { f r.inum with nlink := if isDir then (f r.inum).nlink - 1 else (f r.inum).nlink }) q) s := by
  unfold Names.parentDown
  cases isDir with
  | false =>
    rw [if_neg Bool.false_ne_true, if_neg Bool.false_ne_true, update_eq_self]
    exact wp_val h
  | true =>
    rw [if_pos rfl, if_pos rfl, wp_bind]
    exact h.setLinks hE hr hL (hCover.inodes _ mem_cons_self) hCover.room (· - 1)

lemma unlinkBusy (h : Turn s sb l L f q) (hr : r ∈ l) (hL : r.ip ∈ L) (isDir : Bool) :
    wp (Names.unlinkBusy r.ip isDir) E (fun res t => t = s ∧ (res = false → isDir = true →
      ∀ off, 32 ≤ off → (f r.inum).Slot off → ((f r.inum).dirent off).inum = 0)) s := by
  unfold Names.unlinkBusy
  cases isDir with
  | false =>
    rw [if_neg Bool.false_ne_true]
    exact wp_val ⟨rfl, nofun⟩
  | true =>
    rw [if_pos rfl]
    apply (wp_map _ _).mpr
    apply wp_post (h.isdirempty hE hr hL)
    rintro empty t ⟨rfl, hEmpty⟩
    exact ⟨rfl, fun hRes _ => hEmpty (by simpa using hRes)⟩

lemma unlinkClear (h : Turn s sb (r' ::ₘ r ::ₘ l) (insert r'.ip {r.ip}) f q) (hip : r'.ip ≠ r.ip) (hOff : off % 16 = 0)
    (hCover : Covers q sb [r'.inum, r.inum] 2) (isDir : Bool) :
    wp (Names.unlinkClear r.ip r'.ip off isDir) E (fun res t => res = some r'.ip ∧ ∃ f',
      Drops ({ r' with loaded := true } ::ₘ l) { r with loaded := true } (cleared f r.inum off isDir) f' ∧
      Turn t sb ({ r' with loaded := true } ::ₘ l) ∅ (relinked f' r'.inum (· - 1)) (q.use 2)) s := by
  have hMem' : r' ∈ r' ::ₘ r ::ₘ l := mem_cons_self _ _
  have hMem : r ∈ r' ::ₘ r ::ₘ l := mem_cons_of_mem (mem_cons_self _ _)
  have hErase : (insert r'.ip ({r.ip} : Finset Ip)).erase r.ip = {r'.ip} := by
    rw [Finset.erase_insert_of_ne hip, erase_singleton, insert_empty_eq]
  have hIn : r.ip ∈ insert r'.ip ({r.ip} : Finset Ip) := Finset.mem_insert_of_mem (mem_singleton_self _)
  have hHas : q.Has (sb.iblock r.inum) := hCover.inodes _ (by simp)
  have hHas' : q.Has (sb.iblock r'.inum) := hCover.inodes _ (by simp)
  have hCoverDir : Covers (q.use 2) sb [r.inum] 0 :=
    ⟨Quota.hasMap_use.mpr hCover.map, by simpa using hHas, Quota.Room.use hCover.room⟩
  unfold Names.unlinkClear
  apply wp_call (h.writeDirent hE hMem hIn hCover.map hHas hCover.room List.length_replicate hOff)
  rintro res t (⟨hres, -⟩ | ⟨rfl, -, -, ht⟩)
  · rw [if_pos (show res ≠ (direntSize : Int) from hres)]
    exact (wp_stop _).mpr (hE.calm _ (by simp [Mild]) (by simp [LogFits]))
  · rw [if_neg (show ¬ (16 : Int) ≠ (direntSize : Nat) by decide)]
    apply wp_call (ht.parentDown (hE.use 2) hMem hIn hCoverDir isDir)
    intro _ u hu
    rw [update_self, update_idem] at hu
    have hu := hu.load (mem_insert_self _ _) true
    rw [Multiset.cons_swap] at hu
    apply wp_call (hu.iunlockput (hE.use 2) hIn hCoverDir)
    rintro _ v ⟨f', hDrop, hv⟩
    rw [hErase] at hv
    have hMemEnd : ({ r' with loaded := true } : Ref) ∈ ({ r' with loaded := true } : Ref) ::ₘ l := mem_cons_self _ _
    apply wp_call (hv.setLinks (hE.use 2) hMemEnd (mem_singleton_self _) (Quota.has_use.mpr hHas')
      (Quota.Room.use hCover.room) (· - 1))
    intro _ w0 hw0
    apply wp_call hw0
    intro _ w hw
    apply wp_call (hw.iunlock (hE.use 2) hMemEnd)
    intro _ x hx
    rw [erase_singleton] at hx
    exact wp_val ⟨rfl, f', hDrop, hx⟩

lemma unlinkFound (h : Turn s sb (r' ::ₘ r ::ₘ l) (insert r'.ip {r.ip}) f q) (hip : r'.ip ≠ r.ip) (hOff : off % 16 = 0)
    (hLinks : (f r'.inum).nlink < 1 → E .unlinkNlink) (hCover : Covers q sb [r'.inum, r.inum] 2) :
    wp (Names.unlinkFound r.ip r'.ip off) E (fun res t => 1 ≤ (f r'.inum).nlink ∧
      ((res = none ∧ Turn t sb (r ::ₘ l) ∅ f (q.use 2)) ∨
      (res = some r'.ip ∧ ((f r'.inum).type = tDir → ∀ o, 32 ≤ o → (f r'.inum).Slot o → ((f r'.inum).dirent o).inum = 0) ∧
        ∃ f', Drops ({ r' with loaded := true } ::ₘ l) { r with loaded := true }
          (cleared f r.inum off ((f r'.inum).type = tDir)) f' ∧
        Turn t sb ({ r' with loaded := true } ::ₘ l) ∅ (relinked f' r'.inum (· - 1)) (q.use 2)))) s := by
  have hMem' : r' ∈ r' ::ₘ r ::ₘ l := mem_cons_self _ _
  have hIn' : r'.ip ∈ insert r'.ip ({r.ip} : Finset Ip) := mem_insert_self _ _
  have hErase : (insert r'.ip ({r.ip} : Finset Ip)).erase r'.ip = {r.ip} := erase_insert (by simpa using hip)
  unfold Names.unlinkFound
  apply wp_call (h.getInode hMem' hIn')
  rintro x t ⟨rfl, -, -, hx, hxLink⟩
  rw [hx, hxLink, wp_ite]
  constructor
  · exact fun hFew => (wp_stop _).mpr (hLinks hFew)
  · intro hFew
    have hLink : 1 ≤ (f r'.inum).nlink := by
      rw [Int16.le_iff_toInt_le]
      rw [Int16.lt_iff_toInt_lt] at hFew
      omega
    simp only [hLink, true_and]
    apply wp_call (h.unlinkBusy hE hMem' hIn' _)
    rintro busy u ⟨rfl, hBusy⟩
    cases busy with
    | true =>
      rw [if_pos rfl]
      apply wp_call (h.iunlockput hE hIn' ⟨hCover.map, fun i hi => hCover.inodes i (by simp_all), hCover.room.mono (by decide)⟩)
      rintro _ v ⟨f', hDrop, hv⟩
      have hSame : f' = f := by
        cases hDrop with
        | free _ hZero =>
          grind
        | keep => rfl
      rw [hErase, hSame] at hv
      apply wp_call (hv.iunlock hE (mem_cons_self _ _))
      intro _ w hw
      rw [erase_singleton] at hw
      exact wp_val (.inl ⟨rfl, hw.use 2⟩)
    | false =>
      rw [if_neg Bool.false_ne_true]
      apply wp_post (h.unlinkClear hE hip hOff hCover _)
      rintro _ v ⟨rfl, f', hDrop, hv⟩
      exact .inr ⟨rfl, fun hDir => hBusy rfl (decide_eq_true hDir), f', hDrop, hv⟩

lemma unlinkIn (h : Turn s sb (r ::ₘ l) ∅ f q) (hNoType : (f r.inum).type = 0 → E .ilockNoType)
    (hRange : (f r.inum).type = tDir → (f r.inum).InRange sb.ninodes) (hCover : Covers q sb [r.inum] 2)
    (hNamed : ∀ o, (f r.inum).Names o name → q.Has (sb.iblock ((f r.inum).dirent o).inum.toNat) ∧
      ((f ((f r.inum).dirent o).inum.toNat).type = 0 → E .ilockNoType) ∧
      ((f ((f r.inum).dirent o).inum.toNat).nlink < 1 → E .unlinkNlink)) :
    wp (Names.unlinkIn r.ip name) E (fun res t => (f r.inum).type ≠ 0 ∧
      match res with
      | none => Turn t sb (r ::ₘ l) ∅ f (q.use 2)
      | some ip => key name ≠ key [46] ∧ key name ≠ key [46, 46] ∧ ∃ off i, (f r.inum).Names off name ∧
          i = ((f r.inum).dirent off).inum.toNat ∧ i ≠ r.inum ∧ (f i).type ≠ 0 ∧ 1 ≤ (f i).nlink ∧
          ((f i).type = tDir → ∀ o, 32 ≤ o → (f i).Slot o → ((f i).dirent o).inum = 0) ∧
          ∃ f', Drops (⟨ip, i, true⟩ ::ₘ l) { r with loaded := true } (cleared f r.inum off ((f i).type = tDir)) f' ∧
            Turn t sb (⟨ip, i, true⟩ ::ₘ l) ∅ (relinked f' i (· - 1)) (q.use 2)) s := by
  have hMem : r ∈ r ::ₘ l := mem_cons_self _ _
  have hIn : r.ip ∈ ({r.ip} : Finset Ip) := mem_singleton_self _
  unfold Names.unlinkIn
  apply wp_call (h.ilock hE hMem hNoType)
  rintro _ t ⟨-, hType, ht⟩
  rw [insert_empty_eq] at ht
  simp only [hType, ne_eq, not_false_eq_true, true_and]
  rw [wp_ite]
  constructor
  · intro _
    apply wp_call (ht.iunlock hE hMem)
    intro _ u hu
    rw [erase_singleton] at hu
    exact wp_val (hu.use 2)
  · intro hDots
    rw [not_or, namecmp_eq_zero, namecmp_eq_zero] at hDots
    apply wp_call (ht.dirlookup hE hMem hIn hRange name)
    rintro (_ | ⟨ip, off⟩) u ⟨hDir, hu⟩
    · obtain ⟨rfl, -⟩ := hu
      apply wp_call (ht.iunlock hE hMem)
      intro _ v hv
      rw [erase_singleton] at hv
      exact wp_val (hv.use 2)
    · obtain ⟨hNames, hu⟩ := hu
      obtain ⟨hHas, hFreed, hLinks⟩ := hNamed off hNames
      obtain ⟨i, hi⟩ : ∃ i, i = ((f r.inum).dirent off).inum.toNat := ⟨_, rfl⟩
      rw [← hi] at hu hHas hFreed hLinks
      have hMem' : (⟨ip, i, false⟩ : Ref) ∈ (⟨ip, i, false⟩ : Ref) ::ₘ r ::ₘ l := mem_cons_self _ _
      apply wp_call (hu.ilock hE hMem' hFreed)
      rintro _ v ⟨hNotIn, hType', hv⟩
      have hip : ip ≠ r.ip := by simpa using hNotIn
      have hne : i ≠ r.inum := fun he => hip (hu.ip_eq hMem' (mem_cons_of_mem hMem) he)
      apply wp_post (hv.unlinkFound hE hip hNames.1.1 hLinks
        ⟨hCover.map, by simpa using ⟨hHas, hCover.inodes _ mem_cons_self⟩, hCover.room⟩)
      rintro _ w ⟨hLink, ⟨rfl, hw⟩ | ⟨rfl, hEmpty, f', hDrop, hw⟩⟩
      · exact hw
      · exact ⟨hDots.1, hDots.2, off, i, hNames, hi, hne, hType', hLink, hEmpty, f', hDrop, hw⟩

end Turn

end Xv6K230.Names
