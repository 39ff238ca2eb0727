import Xv6K230.Names.Entries
import Xv6K230.Names.Tables

/-! # The walk of `namex`

What a path says: its elements, and the inode that a walk along them ends at.
-/

namespace Xv6K230.Names

open Multiset (mem_cons_of_mem mem_cons_self)
open Fs Prog

/-! ## Paths -/

/-- The runs of other characters between slashes, cut as in `skipelem`. -/
def components (path : Text) : List Text := ((path.splitOn slash).filter (· ≠ [])).map (List.take dirsiz)

def lookupAll (f : Nat → Node) : Nat → List Text → Option Nat
  | i, [] => some i
  | i, name :: rest => if (f i).type = tDir then (binding (f i) (key name)).bind fun j => lookupAll f j rest else none

/-- Where `namei` ends. -/
def target (f : Nat → Node) (i : Nat) (path : Text) : Option Nat := lookupAll f i (components path)

/-- Where `nameiparent` ends, and the name that is left. -/
def parentTarget (f : Nat → Node) (i : Nat) (path : Text) : Option (Nat × Text) := do
  let name ← (components path).getLast?
  let d ← lookupAll f i (components path).dropLast
  if (f d).type = tDir then some (d, name) else none

section

variable {path name rest : Text} {f : Nat → Node} {i : Nat}

lemma components_slash : components (slash :: path) = components path := by
  unfold components
  have hNone : ∀ c ∈ ([] : Text), (c == slash) = false := nofun
  have hSplit : (slash :: path).splitOn slash = [] :: path.splitOn slash :=
    List.splitOnP_append_cons_of_forall_mem hNone slash (by decide) path
  rw [hSplit, List.filter_cons_of_neg (by simp)]

lemma components_dropWhile : components (path.dropWhile (· = slash)) = components path := by
  induction path with
  | nil => rfl
  | cons c path ih =>
    grind [List.dropWhile_cons_of_pos, components_slash, List.dropWhile_cons_of_neg]

lemma components_append {elem : Text} (hElem : ∀ c ∈ elem, c ≠ slash) (hne : elem ≠ []) (hRest : rest.head? = none ∨ rest.head? = some slash) :
    components (elem ++ rest) = elem.take dirsiz :: components rest := by
  have hNone : ∀ c ∈ elem, (c == slash) = false := fun c hc => beq_eq_false_iff_ne.mpr (hElem c hc)
  cases rest with
  | nil =>
    have hSplit : elem.splitOn slash = [elem] := List.splitOnP_eq_singleton hNone
    unfold components
    rw [List.append_nil, hSplit, List.filter_cons_of_pos (by simpa using hne)]
    rfl
  | cons c rest =>
    obtain rfl : c = slash := by simpa using hRest
    have hSplit : (elem ++ slash :: rest).splitOn slash = elem :: rest.splitOn slash :=
      List.splitOnP_append_cons_of_forall_mem hNone slash (by decide) rest
    rw [components_slash]
    unfold components
    rw [hSplit, List.filter_cons_of_pos (by simpa using hne), List.map_cons]

lemma components_of_skipelem_none (h : skipelem path = none) : components path = [] := by
  rw [← components_dropWhile]
  unfold skipelem at h
  dsimp only at h
  split at h
  · rename_i hEmpty
    rw [hEmpty]
    rfl
  · cases h

lemma components_of_skipelem (h : skipelem path = some (name, rest)) : components path = name :: components rest := by
  rw [← components_dropWhile]
  unfold skipelem at h
  dsimp only at h
  split at h
  · cases h
  · rename_i hne
    obtain ⟨p, hp⟩ : ∃ p, p = path.dropWhile (· = slash) := ⟨_, rfl⟩
    rw [← hp] at h hne ⊢
    cases h
    have hSplit := List.takeWhile_append_dropWhile (p := fun c => decide (c ≠ slash)) (l := p)
    have hElem : ∀ c ∈ p.takeWhile (· ≠ slash), c ≠ slash := fun c hc => by simpa using List.mem_takeWhile_imp hc
    have hNonempty : p.takeWhile (· ≠ slash) ≠ [] := by
      obtain ⟨c, l, hcl⟩ := List.exists_cons_of_ne_nil hne
      have hHead : c ≠ slash := by
        have hNot := List.head_dropWhile_not (· = slash) (hp ▸ hne)
        simp only [← hp, hcl, List.head_cons, decide_eq_false_iff_not] at hNot
        exact hNot
      rw [hcl, List.takeWhile_cons_of_pos (by simpa using hHead)]
      exact List.cons_ne_nil _ _
    have hRest : (p.dropWhile (· ≠ slash)).head? = none ∨ (p.dropWhile (· ≠ slash)).head? = some slash := by
      cases hDrop : p.dropWhile (· ≠ slash) with
      | nil => exact .inl rfl
      | cons c l =>
        have hNot := List.head_dropWhile_not (· ≠ slash) (l := p) (by rw [hDrop]; exact List.cons_ne_nil _ _)
        simp only [hDrop, List.head_cons, decide_eq_false_iff_not, not_not] at hNot
        exact .inr (by rw [hNot]; rfl)
    rw [components_dropWhile]
    conv_lhs => rw [← hSplit]
    exact components_append hElem hNonempty hRest

lemma rest_nil_iff (h : skipelem path = some (name, rest)) : rest = [] ↔ components rest = [] := by
  constructor
  · rintro rfl
    rfl
  · intro hNone
    unfold skipelem at h
    dsimp only at h
    split at h
    · cases h
    · obtain ⟨p, hp⟩ : ∃ p, p = (path.dropWhile (· = slash)).dropWhile (· ≠ slash) := ⟨_, rfl⟩
      rw [← hp] at h
      cases h
      by_contra hne
      cases hSkip : skipelem (p.dropWhile (· = slash)) with
      | none =>
        grind [List.dropWhile_idempotent, skipelem]
      | some r =>
        rw [components_of_skipelem hSkip] at hNone
        cases hNone

/-- The walk along elements, as the loop of `namex` makes it. -/
def resolve (f : Nat → Node) (parent : Bool) : Nat → List Text → Option (Nat × Text)
  | i, [] => if parent then none else some (i, [])
  | i, name :: rest =>
    if (f i).type ≠ tDir then none
    else if parent && rest = [] then some (i, name)
    else (binding (f i) (key name)).bind fun j => resolve f parent j rest

lemma resolve_false : ∀ (cs : List Text) (i : Nat), resolve f false i cs = (lookupAll f i cs).map fun j => (j, [])
  | [], _ => rfl
  | name :: rest, i => by
    unfold resolve lookupAll
    by_cases hDir : (f i).type = tDir
    · rw [if_neg (not_not.mpr hDir), if_pos hDir, if_neg (by simp), Option.map_bind]
      congr 1
      funext j
      exact resolve_false rest j
    · rw [if_pos hDir, if_neg hDir]
      rfl

lemma resolve_true : ∀ (cs : List Text) (i : Nat), resolve f true i cs = (do
    let name ← cs.getLast?
    let d ← lookupAll f i cs.dropLast
    if (f d).type = tDir then some (d, name) else none)
  | [], _ => rfl
  | [name], i => by
    unfold resolve
    by_cases hDir : (f i).type = tDir
    · simp [hDir, lookupAll]
    · simp [hDir, lookupAll]
  | name :: next :: rest, i => by
    have ih := resolve_true (next :: rest)
    unfold resolve
    rw [List.getLast?_cons_cons, List.dropLast_cons_of_ne_nil (List.cons_ne_nil _ _)]
    unfold lookupAll
    by_cases hDir : (f i).type = tDir
    · rw [if_neg (not_not.mpr hDir), if_neg (by simp)]
      simp only [hDir, if_true, ih]
      cases binding (f i) (key name) with
      | none => cases (next :: rest).getLast? <;> rfl
      | some j => rfl
    · rw [if_pos hDir]
      simp only [hDir, if_false]
      cases (next :: rest).getLast? <;> rfl

end

/-! ## Inodes that stay -/

def Freed (f f' : Nat → Node) : Prop := ∀ i, f' i = f i ∨ f' i = Node.free

def Kept (f : Nat → Node) (l : Multiset Ref) (i : Nat) : Prop := (f i).nlink ≠ 0 ∨ ∃ r ∈ l, r.inum = i

def Linked (f : Nat → Node) (l : Multiset Ref) : Prop :=
  ∀ d off, (f d).type = tDir → (f d).Slot off → ((f d).dirent off).inum ≠ 0 → Kept f l ((f d).dirent off).inum.toNat

def Owned (f : Nat → Node) (l : Multiset Ref) : Prop := ∀ i, (f i).type ≠ 0 → Kept f l i

def Grounded (f : Nat → Node) : Prop :=
  ∀ d off, (f d).type = tDir → (f d).Slot off → ((f d).dirent off).inum ≠ 0 → (f ((f d).dirent off).inum.toNat).type ≠ 0

section

variable {E : Stop → Prop} {s t : FsState} {sb : Superblock} {l l' : Multiset Ref} {L : Finset Ip} {f f1 f' : Nat → Node} {r r' : Ref}
  {i : Nat} {name path : Text}

lemma Freed.refl (f : Nat → Node) : Freed f f := fun _ => .inl rfl

lemma Freed.trans (h : Freed f f1) (h' : Freed f1 f') : Freed f f' := by
  intro i
  rcases h' i with hSame | hFree
  · rw [hSame]
    exact h i
  · exact .inr hFree

lemma Freed.eq_of_back (h : Freed f f1) (h' : Freed f1 f) : f1 = f := by
  funext i
  rcases h i with hSame | hFree
  · exact hSame
  · rcases h' i with hSame' | hFree'
    · exact hSame'.symm
    · rw [hFree, hFree']

lemma Drops.freed (h : Drops l r f f') : Freed f f' := by
  cases h with
  | keep => exact .refl f
  | free =>
    intro i
    by_cases hi : i = r.inum
    · rw [hi, Function.update_self]
      exact .inr rfl
    · rw [Function.update_of_ne hi]
      exact .inl rfl

lemma DirsOk.freed (h : DirsOk f) (hf : Freed f f') : DirsOk f' := by
  intro i hDir
  rcases hf i with hSame | hFree
  · rw [hSame] at hDir ⊢
    exact h i hDir
  · rw [hFree] at hDir
    cases hDir

lemma DirsInRange.freed {N : Nat} (h : DirsInRange N f) (hf : Freed f f') : DirsInRange N f' := by
  intro i hDir
  rcases hf i with hSame | hFree
  · rw [hSame] at hDir ⊢
    exact h i hDir
  · rw [hFree] at hDir
    cases hDir

lemma Kept.mono (h : Kept f l i) (hl : l ≤ l') : Kept f l' i := by
  rcases h with hLink | ⟨r, hr, hi⟩
  · exact .inl hLink
  · exact .inr ⟨r, Multiset.mem_of_le hl hr, hi⟩

lemma Drops.eq_of_kept (h : Drops l r f f') (hKept : Kept f l r.inum) (hip : ∀ r' ∈ l, r'.inum = r.inum → r'.ip = r.ip) : f' = f := by
  cases h with
  | keep => rfl
  | free hAlone hLinks =>
    rcases hKept with hLink | ⟨r', hr', hInum⟩
    · exact absurd hLinks hLink
    · exact absurd (hip r' hr' hInum) (hAlone r' hr')

lemma Turn.drop (h : Turn s sb (r ::ₘ l) ∅ f .free) :
    wp (Fs.iput r.ip) Quiet (fun _ t => ∃ f', Freed f f' ∧ (f' = f → Still s t) ∧
      ((f r.inum).type = 0 ∨ Kept f l r.inum → f' = f) ∧ Turn t sb l ∅ f' .free) s := by
  have hip : ∀ r' ∈ l, r'.inum = r.inum → r'.ip = r.ip := fun r' hr' =>
    h.ip_eq (mem_cons_of_mem hr') (mem_cons_self _ _)
  have hStays : ∀ f', Drops l r f f' → (f r.inum).type = 0 ∨ Kept f l r.inum → f' = f := by
    rintro f' hDrops (hUnused | hKept)
    · cases hDrops with
      | keep => rfl
      | free => rw [← h.eq_free hUnused, Function.update_eq_self]
    · exact hDrops.eq_of_kept hKept hip
  have hMain := h.iput_exact quiet_tame (fun hIn => absurd hIn (Finset.notMem_empty _)) fun _ _ => ⟨fun _ _ => trivial, trivial, trivial⟩
  by_cases hGone : (s.itable r.ip).ref = 1 ∧ (s.itable r.ip).valid = true ∧ (s.itable r.ip).di.nlink = 0
  · apply wp_post hMain
    rintro _ t ⟨f', hDrops, hNew, ht⟩
    exact ⟨f', hDrops.freed, fun hSame => absurd hSame (hNew hGone), hStays f' hDrops, ht⟩
  · apply wp_post (wp_and hMain (iput_still hGone))
    rintro _ t ⟨⟨f', hDrops, -, ht⟩, hStill⟩
    exact ⟨f', hDrops.freed, fun _ => hStill, hStays f' hDrops, ht⟩

lemma Turn.ref_eq (h : Turn s sb l L f .free) (ip : Ip) : (s.itable ip).ref = l.countP fun r => r.ip = ip := by
  obtain ⟨e, hJob, hCounted, -⟩ := h
  rw [hJob.view.ref, hCounted.ref]

def Crowded (l : Multiset Ref) : Prop := ∀ ip, ∃ r ∈ l, r.ip = ip

lemma Turn.crowded (h : Turn s sb l L f .free) (hFull : ∀ ip, (s.itable ip).ref ≠ 0) : Crowded l := by
  intro ip
  have hRef := hFull ip
  rw [h.ref_eq] at hRef
  by_contra hNone
  apply hRef
  rw [Nat.cast_eq_zero, Multiset.countP_eq_zero]
  exact fun r hr hip => hNone ⟨r, hr, hip⟩

lemma Turn.ilock_still (h : Turn s sb l L f .free) (hr : r ∈ l) (hL : r.ip ∉ L) (hType : (f r.inum).type = 0 → E .ilockNoType) :
    wp (Fs.ilock r.ip) E (fun _ t => Still s t) s := by
  obtain ⟨e, hJob, hCounted, -⟩ := h
  have hPos := hCounted.pos hr
  have hInum := hCounted.inum r hr
  apply Fs.ilock_still
  · intro hLow
    rw [hJob.view.ref] at hLow
    omega
  · intro hLocked
    rw [hJob.view.locked] at hLocked
    exact absurd ((hCounted.locked r.ip).mp hLocked) hL
  · intro _ hZero
    apply hType
    have hRange := hJob.table.inum r.ip hPos
    rw [hInum] at hRange
    rw [hJob.view.inum, hInum] at hZero
    exact (hJob.view.type_eq_zero hRange.2).mpr hZero

lemma Turn.iunlock_still (h : Turn s sb l L f .free) (hr : r ∈ l) (hL : r.ip ∈ L) :
    wp (Fs.iunlock r.ip) E (fun _ t => Still s t) s := by
  obtain ⟨e, hJob, hCounted, -⟩ := h
  have hPos := hCounted.pos hr
  apply Fs.iunlock_still
  rintro (hNot | hLow)
  · rw [hJob.view.locked, (hCounted.locked r.ip).mpr hL] at hNot
    cases hNot
  · rw [hJob.view.ref] at hLow
    omega

lemma Turn.dirlookup_still (h : Turn s sb l L f .free) (hr : r ∈ l) (hL : r.ip ∈ L) (hDir : (f r.inum).type = tDir)
    (hAligned : (f r.inum).size % 16 = 0) (hFull : Crowded l → E .igetNoInodes) (name : Text) :
    wp (Fs.dirlookup r.ip name) E (fun _ t => Still s t) s := by
  have hCrowded := h.crowded
  obtain ⟨e, hJob, hCounted, -⟩ := h
  have hInum := hCounted.inum r hr
  apply Fs.dirlookup_still hJob.view (hCounted.pos hr) (hCounted.valid r.ip hL)
  · rw [hInum]
    exact fun hNot => absurd hDir hNot
  · rw [hInum]
    exact fun hNot => absurd hAligned hNot
  · exact fun hNone => hFull (hCrowded hNone)

lemma Turn.walkStep_still (h : Turn s sb l ∅ f .free) (hr : r ∈ l) (hDirs : DirsOk f) (hRange : DirsInRange sb.ninodes f)
    (hType : (f r.inum).type = 0 → E .ilockNoType) (hFull : Crowded l → E .igetNoInodes) (name : Text) (last : Bool) :
    wp (Names.walkStep r.ip name last) E (fun _ t => Still s t) s := by
  have hIn : r.ip ∈ ({r.ip} : Finset Ip) := Finset.mem_singleton_self _
  unfold Names.walkStep
  apply wp_call (wp_weaken_stop (wp_both (h.ilock quiet_tame hr fun _ => by decide)
    (h.ilock_still hr (Finset.notMem_empty _) hType)) fun _ he => he.2)
  rintro _ t ⟨⟨-, -, ht⟩, hStill⟩
  rw [insert_empty_eq] at ht
  have hUnlock : ∀ u (a : Option (Option Ip)), Still s u → (∃ l', r ∈ l' ∧ Turn u sb l' {r.ip} f .free) →
      wp (do Fs.iunlock r.ip; return a : FsM _) E (fun _ v => Still s v) u := by
    rintro u a hu ⟨l', hr', hTurn⟩
    apply wp_call (hTurn.iunlock_still hr' hIn)
    exact fun _ v hv => wp_val (hu.trans hv)
  apply wp_call (ht.getInode hr hIn)
  rintro x u ⟨rfl, -, -, hx, -⟩
  rw [wp_ite]
  constructor
  · exact fun _ => hUnlock u _ hStill ⟨l, hr, ht⟩
  · intro hDir
    rw [not_not, hx] at hDir
    rw [wp_ite]
    constructor
    · exact fun _ => hUnlock u _ hStill ⟨l, hr, ht⟩
    · intro _
      apply wp_call (wp_weaken_stop (wp_both (ht.dirlookup quiet_tame hr hIn (hRange r.inum) name)
        (ht.dirlookup_still hr hIn hDir (hDirs r.inum hDir).aligned hFull name)) fun _ he => he.2)
      rintro (_ | ⟨ip, off⟩) v ⟨⟨-, hv⟩, hMore⟩
      · exact hUnlock v _ (hStill.trans hMore) ⟨l, hr, hv.1 ▸ ht⟩
      · exact hUnlock v _ (hStill.trans hMore) ⟨_, mem_cons_of_mem hr, hv.2⟩

structure Walked (sb : Superblock) (l : Multiset Ref) (parent : Bool) (r : Ref) (path : Text) (f : Nat → Node) (s t : FsState)
    (res : Option (Ip × Text)) (f' : Nat → Node) : Prop where
  freed : Freed f f'
  same : Linked f l → Kept f l r.inum → f' = f
  owned : Owned f l → f' = f
  still : f' = f → Still s t
  ends : match res with
    | none => Turn t sb l ∅ f' .free ∧ (f' = f → resolve f parent r.inum (components path) = none)
    | some (ip, name) => ∃ r' : Ref, r'.ip = ip ∧ Turn t sb (r' ::ₘ l) ∅ f' .free ∧
        (Linked f l → Kept f l r.inum → Kept f l r'.inum) ∧
        (f' = f → resolve f parent r.inum (components path) = some (r'.inum, name))

lemma Turn.walk_failed (h : Turn t sb (r ::ₘ l) ∅ f .free) (hStill : Still s t) {parent : Bool}
    (hNone : resolve f parent r.inum (components path) = none) :
    wp (do Fs.iput r.ip; return none : FsM (Option (Ip × Text))) Quiet
      (fun res u => ∃ f', Walked sb l parent r path f s u res f') t := by
  apply wp_call h.drop
  rintro _ u ⟨f', hFreed, hSame, hKept, hu⟩
  exact wp_val ⟨f', hFreed, fun _ hk => hKept (.inr hk), fun hOwned => hKept (or_iff_not_imp_left.mpr (hOwned r.inum)),
    fun hf => hStill.trans (hSame hf), hu, fun _ => hNone⟩

lemma Walked.next {parent : Bool} {rest : Text} {u v : FsState} {res : Option (Ip × Text)}
    (hr' : resolve f parent r.inum (components path) = resolve f parent r'.inum (components rest))
    (hLinked : Linked f l → Kept f l r'.inum) (hFreed : Freed f f1) (hSame : Kept f l r.inum → f1 = f) (hOwned : Owned f l → f1 = f)
    (hStill : f1 = f → Still s u) (h : Walked sb l parent r' rest f1 u v res f') : Walked sb l parent r path f s v res f' := by
  have hBack : f' = f → f1 = f := fun hf => hFreed.eq_of_back (hf ▸ h.freed)
  refine ⟨hFreed.trans h.freed, ?_, ?_, ?_, ?_⟩
  · intro hLinks hKept
    obtain rfl := hSame hKept
    exact h.same hLinks (hLinked hLinks)
  · intro hAll
    obtain rfl := hOwned hAll
    exact h.owned hAll
  · intro hf
    obtain rfl := hBack hf
    exact (hStill rfl).trans (h.still hf)
  · have hEnds := h.ends
    cases res with
    | none =>
      grind
    | some p =>
      obtain ⟨r'', hip, hTurn, hKept', hRes⟩ := hEnds
      refine ⟨r'', hip, hTurn, ?_, ?_⟩
      · grind
      · intro hf
        obtain rfl := hBack hf
        rw [hr']
        exact hRes hf

lemma Turn.walk (parent : Bool) : ∀ (fuel : Nat) {s : FsState} {f : Nat → Node} (r : Ref) (path : Text), path.length < fuel →
    Turn s sb (r ::ₘ l) ∅ f .free → DirsOk f → DirsInRange sb.ninodes f →
    wp (namexLoop parent fuel r.ip path) Quiet (fun res t => ∃ f', Walked sb l parent r path f s t res f') s := by
  intro fuel
  induction fuel with
  | zero => exact fun _ _ h => absurd h (Nat.not_lt_zero _)
  | succ fuel ih =>
    intro s f r path hFuel h hDirs hRange
    have hMem : r ∈ r ::ₘ l := mem_cons_self _ _
    rw [namexLoop_succ]
    cases hSkip : skipelem path with
    | none =>
      have hNone := components_of_skipelem_none hSkip
      cases parent with
      | true => exact h.walk_failed (.refl s) (by rw [hNone]; rfl)
      | false => exact wp_val ⟨f, .refl f, fun _ _ => rfl, fun _ => rfl, fun _ => .refl s, r, rfl, h, fun _ hKept => hKept,
          fun _ => by rw [hNone]; rfl⟩
    | some p =>
      obtain ⟨name, rest⟩ := p
      have hSome := components_of_skipelem hSkip
      have hLast : (parent && decide (rest = [])) = (parent && decide (components rest = [])) := by
        simp only [rest_nil_iff hSkip]
      dsimp only
      apply wp_call (wp_and (h.walkStep quiet_tame hMem (fun _ => by decide) (hRange r.inum) name _)
        (h.walkStep_still (E := Quiet) hMem hDirs hRange (fun _ => by decide) (fun _ => by decide) name _))
      rintro (_ | _ | next) t ⟨⟨-, ht⟩, hStill⟩
      · obtain ⟨hWhy, ht⟩ := ht
        apply ht.walk_failed hStill
        rw [hSome, resolve]
        by_cases hDir : (f r.inum).type = tDir
        · obtain ⟨hNotLast, hAbsent⟩ := hWhy hDir
          rw [hLast] at hNotLast
          rw [if_neg (not_not.mpr hDir), if_neg (by rw [hNotLast]; decide), (hDirs r.inum hDir).binding_eq_none.mpr hAbsent]
          rfl
        · rw [if_pos hDir]
      · obtain ⟨hDir, hYes, ht⟩ := ht
        rw [hLast] at hYes
        refine wp_val ⟨f, .refl f, fun _ _ => rfl, fun _ => rfl, fun _ => hStill, r, rfl, ht, fun _ hKept => hKept, fun _ => ?_⟩
        rw [hSome, resolve, if_neg (not_not.mpr hDir), if_pos hYes]
      · obtain ⟨hDir, hNo, off, hNamed, ht⟩ := ht
        rw [hLast] at hNo
        obtain ⟨r', hr'⟩ : ∃ r' : Ref, r' = ⟨next, ((f r.inum).dirent off).inum.toNat, false⟩ := ⟨_, rfl⟩
        have hip : next = r'.ip := by rw [hr']
        rw [← hr', Multiset.cons_swap] at ht
        have hStep : resolve f parent r.inum (components path) = resolve f parent r'.inum (components rest) := by
          rw [hSome, resolve, if_neg (not_not.mpr hDir), if_neg (by rw [hNo]; decide),
            (hDirs r.inum hDir).binding_of_names hNamed, hr']
          rfl
        have hNext : Linked f l → Kept f l r'.inum := by
          intro hLinks
          rw [hr']
          exact hLinks r.inum off hDir hNamed.1 hNamed.2.1
        apply wp_call ht.drop
        rintro _ u ⟨f1, hFreed, hSame, hKept, hu⟩
        rw [hip]
        apply wp_post (ih r' rest (by have := skipelem_lt path hSkip; omega) hu (hDirs.freed hFreed) (hRange.freed hFreed))
        rintro res v ⟨f', hWalked⟩
        have hStays : Kept f l r.inum → f1 = f := fun hk => hKept (.inr (hk.mono (Multiset.le_cons_self _ _)))
        exact ⟨f', hWalked.next hStep hNext hFreed hStays (fun hOwned => hStays (hOwned r.inum (by rw [hDir]; decide)))
          (fun hf => hStill.trans (hSame hf))⟩

/-! ## When a walk returns -/

lemma Turn.not_last (h : Turn s sb (r ::ₘ l) L f .free) (hKept : Kept f l r.inum) :
    ¬ ((s.itable r.ip).ref = 1 ∧ (s.itable r.ip).valid = true ∧ (s.itable r.ip).di.nlink = 0) := by
  rintro ⟨hOne, hValid, hLink⟩
  have hMem : r ∈ r ::ₘ l := mem_cons_self _ _
  have hAlone : ∀ r' ∈ l, r'.ip ≠ r.ip := by
    rw [h.ref_eq, Multiset.countP_cons_of_pos (p := fun r' : Ref => r'.ip = r.ip) _ rfl] at hOne
    push_cast at hOne
    rw [add_eq_right, Nat.cast_eq_zero, Multiset.countP_eq_zero] at hOne
    exact hOne
  rcases hKept with hne | ⟨r', hr', hInum⟩
  · obtain ⟨e, hJob, hCounted, -⟩ := h
    rw [hJob.view.valid] at hValid
    rw [hJob.view.nlink (hCounted.pos hMem) hValid, hCounted.inum r hMem] at hLink
    exact hne hLink
  · exact hAlone r' hr' (h.ip_eq (mem_cons_of_mem hr') hMem hInum)

lemma Turn.drop_kept (h : Turn s sb (r ::ₘ l) ∅ f .free) (hKept : Kept f l r.inum) :
    wp (Fs.iput r.ip) E (fun _ t => Turn t sb l ∅ f .free) s := by
  refine wp_mono (wp_both h.drop (iput_still (E := E) (h.not_last hKept))) (fun _ he => he.2) ?_
  rintro _ t ⟨⟨f', -, -, hSame, ht⟩, -⟩
  rw [hSame (.inr hKept)] at ht
  exact ht

lemma Turn.walk_returns (hDirs : DirsOk f) (hRange : DirsInRange sb.ninodes f) (hGrounded : Grounded f) (hLinked : Linked f l)
    (parent : Bool) : ∀ (fuel : Nat) {s : FsState} (r : Ref) (path : Text), path.length < fuel →
    Turn s sb (r ::ₘ l) ∅ f .free → (f r.inum).type ≠ 0 → Kept f l r.inum →
    wp (namexLoop parent fuel r.ip path) (fun e => e = .igetNoInodes ∧ ∃ r' : Ref, Crowded (r' ::ₘ l)) (fun _ _ => True) s := by
  intro fuel
  induction fuel with
  | zero => exact fun _ _ h => absurd h (Nat.not_lt_zero _)
  | succ fuel ih =>
    intro s r path hFuel h hUsed hKept
    have hMem : r ∈ r ::ₘ l := mem_cons_self _ _
    rw [namexLoop_succ]
    have hFail : ∀ {t : FsState}, Turn t sb (r ::ₘ l) ∅ f .free →
        wp (do Fs.iput r.ip; return none : FsM (Option (Ip × Text))) (fun e => e = .igetNoInodes ∧ ∃ r' : Ref, Crowded (r' ::ₘ l))
          (fun _ _ => True) t := by
      intro t ht
      apply wp_call (ht.drop_kept hKept)
      exact fun _ _ _ => wp_val trivial
    cases hSkip : skipelem path with
    | none =>
      cases parent with
      | true => exact hFail h
      | false => exact wp_val trivial
    | some p =>
      obtain ⟨name, rest⟩ := p
      dsimp only
      apply wp_call (wp_weaken_stop (wp_both (h.walkStep quiet_tame hMem (fun _ => by decide) (hRange r.inum) name _)
        (h.walkStep_still (E := fun e => e = .igetNoInodes ∧ ∃ r' : Ref, Crowded (r' ::ₘ l)) hMem hDirs hRange
          (fun hZero => absurd hZero hUsed) (fun hFull => ⟨rfl, r, hFull⟩) name _)) fun _ he => he.2)
      rintro (_ | _ | next) t ⟨⟨-, ht⟩, -⟩
      · exact hFail ht.2
      · exact wp_val trivial
      · obtain ⟨hDir, -, off, hNamed, ht⟩ := ht
        obtain ⟨r', hr'⟩ : ∃ r' : Ref, r' = ⟨next, ((f r.inum).dirent off).inum.toNat, false⟩ := ⟨_, rfl⟩
        have hip : next = r'.ip := by rw [hr']
        rw [← hr', Multiset.cons_swap] at ht
        apply wp_call (ht.drop_kept (hKept.mono (Multiset.le_cons_self _ _)))
        intro _ u hu
        rw [hip]
        apply ih r' rest (by have := skipelem_lt path hSkip; omega) hu
        · rw [hr']
          exact hGrounded r.inum off hDir hNamed.1 hNamed.2.1
        · rw [hr']
          exact hLinked r.inum off hDir hNamed.1 hNamed.2.1

end

end Xv6K230.Names
