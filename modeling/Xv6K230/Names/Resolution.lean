import Xv6K230.Names.System
import Xv6K230.Names.Walk

/-! # Path resolution

`namei` and `nameiparent` from any state in which no inode is locked.
-/

namespace Xv6K230.Names

open Fs Prog

def refsOf (s : FsState) : Multiset Ref := ∑ ip, Multiset.replicate (s.itable ip).ref.toNat ⟨ip, (s.itable ip).inum, false⟩

def startInum (s : FsState) (cwd : Ip) (path : Text) : Nat := if path.head? = some slash then rootino else (s.itable cwd).inum

def Gained (s t : FsState) (ip : Option Ip) : Prop :=
  ∀ jp, (t.itable jp).ref = (s.itable jp).ref + (if ip = some jp then 1 else 0) ∧
    (0 < (s.itable jp).ref → (t.itable jp).inum = (s.itable jp).inum)

def Exhausted (s : FsState) (e : Stop) : Prop := e = .igetNoInodes ∧ ∃ ip, ∀ jp, jp ≠ ip → (s.itable jp).ref ≠ 0

structure Tree (s : FsState) (cwd : Ip) : Prop where
  grounded : Grounded s.files
  linked : ∀ d off, (s.files d).type = tDir → (s.files d).Slot off → ((s.files d).dirent off).inum ≠ 0 →
    (s.files ((s.files d).dirent off).inum.toNat).nlink ≠ 0 ∨
    ∃ ip, 0 < (s.itable ip).ref ∧ (s.itable ip).inum = ((s.files d).dirent off).inum.toNat
  root : (s.files rootino).type ≠ 0 ∧ (s.files rootino).nlink ≠ 0
  cwd : (s.files (s.itable cwd).inum).type ≠ 0

section

variable {s t : FsState} {cwd ip : Ip} {r : Ref} {path : Text}

lemma mem_refsOf : r ∈ refsOf s ↔ 0 < (s.itable r.ip).ref ∧ r = ⟨r.ip, (s.itable r.ip).inum, false⟩ := by
  unfold refsOf
  rw [Multiset.mem_sum]
  constructor
  · rintro ⟨ip, -, hr⟩
    obtain ⟨hPos, rfl⟩ := Multiset.mem_replicate.mp hr
    have hRef : 0 < (s.itable ip).ref := by omega
    exact ⟨hRef, rfl⟩
  · rintro ⟨hPos, hr⟩
    exact ⟨r.ip, Finset.mem_univ _, Multiset.mem_replicate.mpr ⟨by omega, hr⟩⟩

lemma countP_refsOf (ip : Ip) : (refsOf s).countP (fun r => r.ip = ip) = (s.itable ip).ref.toNat := by
  unfold refsOf
  rw [Settled.countP_sum]
  have hOne : ∀ jp : Ip, (Multiset.replicate (s.itable jp).ref.toNat (⟨jp, (s.itable jp).inum, false⟩ : Ref)).countP (fun r => r.ip = ip) =
      if jp = ip then (s.itable jp).ref.toNat else 0 := by
    intro jp
    by_cases hj : jp = ip
    · rw [if_pos hj, Multiset.countP_eq_card.mpr, Multiset.card_replicate]
      intro r hr
      rw [Multiset.eq_of_mem_replicate hr]
      exact hj
    · rw [if_neg hj, Multiset.countP_eq_zero]
      intro r hr
      rw [Multiset.eq_of_mem_replicate hr]
      exact hj
  simp only [hOne, Finset.sum_ite_eq', Finset.mem_univ, if_true]

lemma turn_of_unlocked (h : Consistent s) (hIdle : ∀ ip, (s.itable ip).locked = false) : Turn s s.sb (refsOf s) ∅ s.files .free := by
  refine ⟨s.entries, ⟨⟨h, rfl, rfl, rfl⟩, trivial⟩, ⟨?_, ?_, ?_, ?_, nofun⟩, nofun⟩
  · intro ip
    rw [countP_refsOf]
    have hNonneg := h.table.nonneg ip
    exact (Int.toNat_of_nonneg hNonneg).symm
  · intro r hr
    rw [(mem_refsOf.mp hr).2]
    rfl
  · intro r hr hLoaded
    rw [(mem_refsOf.mp hr).2] at hLoaded
    cases hLoaded
  · intro ip
    change (s.itable ip).locked = true ↔ _
    rw [hIdle ip]
    simp

lemma gained_none (h : Consistent s) (ht : Turn t s.sb (refsOf s) ∅ s.files .free) : Gained s t none := by
  intro jp
  have hNonneg : 0 ≤ (s.itable jp).ref := h.table.nonneg jp
  refine ⟨?_, fun hPos => ?_⟩
  · rw [ht.ref_eq, countP_refsOf, if_neg (by simp)]
    omega
  · have hHeld := wp_ok (ht.getInode_held (E := Quiet) (r := ⟨jp, (s.itable jp).inum, false⟩) (mem_refsOf.mpr ⟨hPos, rfl⟩)) rfl
    exact hHeld.2.2

lemma gained_some (h : Consistent s) (ht : Turn t s.sb (r ::ₘ refsOf s) ∅ s.files .free) :
    (t.itable r.ip).inum = r.inum ∧ Gained s t (some r.ip) := by
  have hHeld := wp_ok (ht.getInode_held (E := Quiet) (Multiset.mem_cons_self _ _)) rfl
  refine ⟨hHeld.2.2, fun jp => ⟨?_, fun hPos => ?_⟩⟩
  · have hNonneg : 0 ≤ (s.itable jp).ref := h.table.nonneg jp
    rw [ht.ref_eq, Multiset.countP_cons, countP_refsOf]
    by_cases hj : r.ip = jp
    · rw [if_pos hj, if_pos (congrArg some hj)]
      push_cast
      omega
    · rw [if_neg hj, if_neg fun hs => hj (Option.some.inj hs)]
      omega
  · have hHeld := wp_ok (ht.getInode_held (E := Quiet) (r := ⟨jp, (s.itable jp).inum, false⟩)
      (Multiset.mem_cons_of_mem (mem_refsOf.mpr ⟨hPos, rfl⟩))) rfl
    exact hHeld.2.2

lemma namex_resolves (hOk : Consistent s) (hIdle : ∀ ip, (s.itable ip).locked = false) (hDirs : DirsOk s.files)
    (hRange : DirsInRange s.sb.ninodes s.files) (hCwd : 0 < (s.itable cwd).ref) (parent : Bool) :
    wp (namex cwd path parent) Quiet (fun res t => t.files = s.files →
      res.map (fun p => ((t.itable p.1).inum, p.2)) = resolve s.files parent (startInum s cwd path) (components path) ∧
      Gained s t (res.map Prod.fst)) s := by
  have h := turn_of_unlocked hOk hIdle
  have hMem : (⟨cwd, (s.itable cwd).inum, false⟩ : Ref) ∈ refsOf s := mem_refsOf.mpr ⟨hCwd, rfl⟩
  rw [namex_eq]
  apply wp_call (h.walkStart quiet_tame hMem hOk.ok.root _)
  intro ip t ht
  have hStart : (if decide (path.head? = some slash) = true then rootino else (s.itable cwd).inum) = startInum s cwd path := by
    simp only [startInum, decide_eq_true_eq]
  rw [hStart] at ht
  apply wp_post (Turn.walk parent _ ⟨ip, startInum s cwd path, false⟩ path (Nat.lt_succ_self _) ht hDirs hRange)
  rintro (_ | ⟨jp, name⟩) u ⟨f', hWalked⟩ hFiles
  · obtain ⟨hu, hNone⟩ := hWalked.ends
    rw [hu.files] at hFiles
    subst hFiles
    exact ⟨(hNone rfl).symm, gained_none hOk hu⟩
  · obtain ⟨r', rfl, hu, -, hSome⟩ := hWalked.ends
    rw [hu.files] at hFiles
    subst hFiles
    obtain ⟨hInum, hGained⟩ := gained_some hOk hu
    refine ⟨?_, hGained⟩
    rw [hSome rfl, Option.map_some, hInum]

lemma Tree.linkedTo (h : Tree s cwd) : Linked s.files (refsOf s) := by
  intro d off hDir hSlot hUsed
  rcases h.linked d off hDir hSlot hUsed with hLink | ⟨ip, hRef, hInum⟩
  · exact .inl hLink
  · exact .inr ⟨⟨ip, (s.itable ip).inum, false⟩, mem_refsOf.mpr ⟨hRef, rfl⟩, hInum⟩

lemma Tree.start_used (h : Tree s cwd) : (s.files (startInum s cwd path)).type ≠ 0 := by
  unfold startInum
  split
  · exact h.root.1
  · exact h.cwd

lemma exhausted_of_crowded (h : Crowded (r ::ₘ refsOf s)) : Exhausted s .igetNoInodes := by
  refine ⟨rfl, r.ip, fun jp hj => ?_⟩
  obtain ⟨r', hr', rfl⟩ := h jp
  rcases Multiset.mem_cons.mp hr' with rfl | hr'
  · exact absurd rfl hj
  · exact ((mem_refsOf.mp hr').1).ne'

lemma lookupAll_used {f : Nat → Node} (hDirs : DirsOk f) (hGrounded : Grounded f) : ∀ (cs : List Text) {i j : Nat},
    (f i).type ≠ 0 → lookupAll f i cs = some j → (f j).type ≠ 0
  | [], i, j, hUsed, h => by
    obtain rfl := Option.some.inj h
    exact hUsed
  | name :: rest, i, j, hUsed, h => by
    unfold lookupAll at h
    split at h
    · next hDir =>
      obtain ⟨m, hm, hRest⟩ := Option.bind_eq_some_iff.mp h
      obtain ⟨off, hSlot, hInum, -, rfl⟩ := (hDirs i hDir).binding_eq_some.mp hm
      exact lookupAll_used hDirs hGrounded rest (hGrounded i off hDir hSlot hInum) hRest
    · cases h

/-- In a tree a walk returns, unless the table has no room for it, and changes no file. -/
lemma namex_tree (hOk : Consistent s) (hIdle : ∀ ip, (s.itable ip).locked = false) (hDirs : DirsOk s.files)
    (hRange : DirsInRange s.sb.ninodes s.files) (hCwd : 0 < (s.itable cwd).ref) (hTree : Tree s cwd) (parent : Bool) :
    wp (namex cwd path parent) (Exhausted s) (fun res t =>
      match res with
      | none => Turn t s.sb (refsOf s) ∅ s.files .free
      | some (ip, name) => ∃ r : Ref, r.ip = ip ∧ Turn t s.sb (r ::ₘ refsOf s) ∅ s.files .free ∧ Kept s.files (refsOf s) r.inum ∧
        resolve s.files parent (startInum s cwd path) (components path) = some (r.inum, name)) s := by
  have h := turn_of_unlocked hOk hIdle
  have hMem : (⟨cwd, (s.itable cwd).inum, false⟩ : Ref) ∈ refsOf s := mem_refsOf.mpr ⟨hCwd, rfl⟩
  have hLinked := hTree.linkedTo
  have hKept : Kept s.files (refsOf s) (startInum s cwd path) := by
    unfold startInum
    split
    · exact .inl hTree.root.2
    · exact .inr ⟨_, hMem, rfl⟩
  have hBegin : wp (walkStart cwd (path.head? = some slash)) (Exhausted s) (fun _ _ => True) s := by
    unfold walkStart
    split
    · refine wp_post (iget_still fun hFull => ⟨rfl, cwd, fun jp _ => hFull jp⟩) fun _ _ _ => trivial
    · exact wp_post idup_still fun _ _ _ => trivial
  rw [namex_eq]
  apply wp_call (wp_weaken_stop (wp_both (h.walkStart quiet_tame hMem hOk.ok.root _) hBegin) fun _ he => he.2)
  rintro ip t ⟨ht, -⟩
  have hStart : (if decide (path.head? = some slash) = true then rootino else (s.itable cwd).inum) = startInum s cwd path := by
    simp only [startInum, decide_eq_true_eq]
  rw [hStart] at ht
  have hReturns := Turn.walk_returns hDirs hRange hTree.grounded hLinked parent _ ⟨ip, startInum s cwd path, false⟩ path
    (Nat.lt_succ_self _) ht hTree.start_used hKept
  have hWalk := Turn.walk parent _ ⟨ip, startInum s cwd path, false⟩ path (Nat.lt_succ_self _) ht hDirs hRange
  refine wp_mono (wp_both hWalk hReturns) ?_ ?_
  · rintro e ⟨-, rfl, r', hCrowded⟩
    exact exhausted_of_crowded hCrowded
  · rintro res u ⟨⟨f', hWalked⟩, -⟩
    have hSame := hWalked.same hLinked hKept
    have hEnds := hWalked.ends
    rw [hSame] at hEnds
    cases res with
    | none => exact hEnds.1
    | some p =>
      grind

lemma namex_returns (hOk : Consistent s) (hIdle : ∀ ip, (s.itable ip).locked = false) (hDirs : DirsOk s.files)
    (hRange : DirsInRange s.sb.ninodes s.files) (hCwd : 0 < (s.itable cwd).ref) (hTree : Tree s cwd) (parent : Bool) :
    wp (namex cwd path parent) (Exhausted s) (fun _ t => t.files = s.files) s := by
  apply wp_post (namex_tree hOk hIdle hDirs hRange hCwd hTree parent)
  rintro (_ | ⟨ip, name⟩) t h
  · exact h.files
  · obtain ⟨r, -, ht, -⟩ := h
    exact ht.files

/-- The inode that `namei` returns in a tree is in use, and stays when it is let go of. -/
lemma namei_tree (hOk : Consistent s) (hIdle : ∀ ip, (s.itable ip).locked = false) (hDirs : DirsOk s.files)
    (hRange : DirsInRange s.sb.ninodes s.files) (hCwd : 0 < (s.itable cwd).ref) (hTree : Tree s cwd) :
    wp (namei cwd path) (Exhausted s) (fun res t =>
      match res with
      | none => Turn t s.sb (refsOf s) ∅ s.files .free
      | some ip => ∃ r : Ref, r.ip = ip ∧ Turn t s.sb (r ::ₘ refsOf s) ∅ s.files .free ∧ Kept s.files (refsOf s) r.inum ∧
        (s.files r.inum).type ≠ 0) s := by
  apply wp_call (namex_tree hOk hIdle hDirs hRange hCwd hTree false)
  rintro (_ | ⟨ip, name⟩) t h
  · exact wp_val h
  · obtain ⟨r, hip, ht, hKept, hResolve⟩ := h
    refine wp_val ⟨r, hip, ht, hKept, ?_⟩
    rw [resolve_false] at hResolve
    obtain ⟨j, hj, hEq⟩ := Option.map_eq_some_iff.mp hResolve
    obtain ⟨rfl, -⟩ := Prod.mk.inj hEq
    exact lookupAll_used hDirs hTree.grounded _ hTree.start_used hj

/-- `namei` and `nameiparent` end where directory lookup along the path ends. A run in which no file
changes takes one reference to the inode that it returns and none to others; in a tree every run
is of this kind, and returns unless fewer than two entries of the inode table are free. -/
theorem path_resolution (hOk : Consistent s) (hIdle : ∀ ip, (s.itable ip).locked = false) (hDirs : DirsOk s.files)
    (hRange : DirsInRange s.sb.ninodes s.files) (hCwd : 0 < (s.itable cwd).ref) (path : Text) :
    (∀ res t, namei cwd path s = .ok (res, t) → t.files = s.files →
      res.map (fun ip => (t.itable ip).inum) = target s.files (startInum s cwd path) path ∧ Gained s t res) ∧
    (∀ res t, nameiparent cwd path s = .ok (res, t) → t.files = s.files →
      res.map (fun p => ((t.itable p.1).inum, p.2)) = parentTarget s.files (startInum s cwd path) path ∧
      Gained s t (res.map Prod.fst)) ∧
    (Tree s cwd → wp (namei cwd path) (Exhausted s) (fun _ t => t.files = s.files) s ∧
      wp (nameiparent cwd path) (Exhausted s) (fun _ t => t.files = s.files) s) := by
  refine ⟨?_, ?_, ?_⟩
  · intro res t hRun hFiles
    have hNamei : wp (namei cwd path) Quiet (fun res t => t.files = s.files →
        res.map (fun ip => (t.itable ip).inum) = target s.files (startInum s cwd path) path ∧ Gained s t res) s := by
      apply wp_call (namex_resolves hOk hIdle hDirs hRange hCwd false)
      intro res t hRes
      refine wp_val fun hFiles => ?_
      obtain ⟨hTarget, hGained⟩ := hRes hFiles
      refine ⟨?_, hGained⟩
      rw [resolve_false] at hTarget
      have hFst := congrArg (Option.map Prod.fst) hTarget
      simp only [Option.map_map, Function.comp_def, Option.map_id_fun', id_eq] at hFst ⊢
      exact hFst
    exact wp_ok hNamei hRun hFiles
  · intro res t hRun hFiles
    have hDone := wp_ok (namex_resolves hOk hIdle hDirs hRange hCwd true) hRun hFiles
    rw [resolve_true] at hDone
    exact hDone
  · intro hTree
    refine ⟨?_, namex_returns hOk hIdle hDirs hRange hCwd hTree true⟩
    apply wp_call (namex_returns hOk hIdle hDirs hRange hCwd hTree false)
    exact fun _ _ ht => wp_val ht

lemma tree_of_check (h : ∀ d < s.sb.ninodes, ∀ off ∈ direntOffsets (s.files d).size, ((s.files d).dirent off).inum ≠ 0 →
    (s.files d).type = tDir → (s.files ((s.files d).dirent off).inum.toNat).type ≠ 0 ∧
      (s.files ((s.files d).dirent off).inum.toNat).nlink ≠ 0)
    (hRoot : (s.files rootino).type ≠ 0 ∧ (s.files rootino).nlink ≠ 0) (hCwd : (s.files (s.itable cwd).inum).type ≠ 0) : Tree s cwd := by
  have hAll : ∀ d off, (s.files d).type = tDir → (s.files d).Slot off → ((s.files d).dirent off).inum ≠ 0 →
      (s.files ((s.files d).dirent off).inum.toNat).type ≠ 0 ∧ (s.files ((s.files d).dirent off).inum.toNat).nlink ≠ 0 := by
    intro d off hDir hSlot hUsed
    by_cases hd : d < s.sb.ninodes
    · have hEnd := hSlot.2
      exact h d hd off (mem_direntOffsets.mpr ⟨hSlot.1, by omega⟩) hUsed hDir
    · have hFree : s.files d = Node.free := if_neg fun hLive => hd hLive.1
      rw [hFree] at hDir
      cases hDir
  exact ⟨fun d off hDir hSlot hUsed => (hAll d off hDir hSlot hUsed).1, fun d off hDir hSlot hUsed => .inl (hAll d off hDir hSlot hUsed).2,
    hRoot, hCwd⟩

end

open NamesSample in
theorem path_resolution_sample : ∃ ip t, namei ip0 [47, 97] fs = .ok (some ip, t) ∧ (t.itable ip).inum = 2 ∧ Gained fs t (some ip) := by
  have hDirs : DirsOk fs.files := dirsOk_of_check (by decide +kernel)
  have hCwd : 0 < (fs.itable ip0).ref := by decide +kernel
  obtain ⟨hNamei, -, hTree⟩ := path_resolution fs_consistent (by decide +kernel) hDirs kernel_settled.range hCwd [47, 97]
  have hRoom : ∀ e, Exhausted fs e → False := by
    rintro e ⟨-, ip, hFull⟩
    obtain ⟨jp, hj, hZero⟩ : ∃ jp, jp ≠ ip ∧ (fs.itable jp).ref = 0 := by
      revert ip
      decide +kernel
    exact hFull jp hj hZero
  have hReturns := (hTree (tree_of_check (by decide +kernel) (by decide +kernel) (by decide +kernel))).1
  obtain ⟨res, t, hRun, hFiles⟩ := wp_total (wp_weaken_stop hReturns hRoom)
  obtain ⟨hRes, hGained⟩ := hNamei res t hRun hFiles
  have hTarget : target fs.files (startInum fs ip0 [47, 97]) [47, 97] = some 2 := by decide +kernel
  rw [hTarget] at hRes
  obtain ⟨ip, rfl, hInum⟩ := Option.map_eq_some_iff.mp hRes
  exact ⟨ip, t, hRun, hInum, hGained⟩

end Xv6K230.Names
