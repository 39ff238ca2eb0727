import Xv6K230.Fs.Lifetime
import Xv6K230.Fs.Transfer
import Xv6K230.Fs.Check
import Xv6K230.Lib.Tally
import Xv6K230.Lib.Transition

/-! # The inode table under concurrent callers

The calls of `fs.c` on inodes, cut into the sections that run under `itable.lock`, under the lock of an inode or, for
`ialloc`, under the lock of the buffer with the inode. For every entry the references that callers hold account for its
count and its lock.
-/

namespace Xv6K230.Inodes

open Fs

inductive Stage where
  | kept -- an open file, a current directory, or a pointer in a call
  | late -- taken while the entry was being freed, and not locked since
  | locked
  | freeing -- in `iput`, which has found that it has to free the inode
  | dropping -- in `iput`, which has freed the inode
  deriving DecidableEq

structure Ref where
  pid : Nat
  stage : Stage
  deriving DecidableEq

structure Sys where
  fs : FsState
  refs : Ip → List Ref
  claims : List (Nat × Nat) -- processes in `ialloc` and the inodes they have claimed

inductive Work where
  | readi (copy : Nat → Text → Bool) (off n : Nat)
  | writei (src : CopyIn) (off n : Nat)
  | itrunc
  | iupdate (major minor nlink : Int16)

def Work.run (ip : Ip) : Work → FsM Unit
  | .readi copy off n => do
    let _ ← Fs.readi ip copy off n
  | .writei src off n => do
    let _ ← Fs.writei ip src off n
  | .itrunc => Fs.itrunc ip
  | .iupdate major minor nlink => do
    modDi ip fun d => { d with major := major, minor := minor, nlink := nlink }
    Fs.iupdate ip

inductive Act where
  | beginOp
  | endOp
  | iget (pid inum : Nat)
  | idup (ip : Ip) (r : Ref) (pid : Nat)
  | ilock (ip : Ip) (r : Ref)
  | work (ip : Ip) (r : Ref) (w : Work)
  | iunlock (ip : Ip) (r : Ref)
  | iput (ip : Ip) (r : Ref)
  | free (ip : Ip) (r : Ref) -- the second section of `iput`
  | drop (ip : Ip) (r : Ref) -- the third
  | ialloc (pid : Nat) (type : UInt16) (inum : Nat) -- the pass of the loop for `inum`
  | claimed (pid inum : Nat) -- the `iget` in `ialloc`

/-- The pass of the loop of `ialloc` before its `iget`. -/
def claim (type : UInt16) (inum : Nat) : FsM Bool := do
  let s ← Prog.read id
  if (s.dinode inum).type = 0 then
    Prog.update fun s => s.setDinode inum { Dinode.zero with type := type }
    logWrite (s.sb.iblock inum)
    return true
  else
    return false

namespace Sys

variable (s : Sys)

def exec {α : Type} (m : FsM α) (k : α → Sys → Sys) : Option Sys :=
  match m s.fs with
  | .ok (a, t) => some (k a { s with fs := t })
  | .error _ => none

def setRefs (ip : Ip) (l : List Ref) : Sys := { s with refs := Function.update s.refs ip l }

def arrive (ip : Ip) (pid : Nat) : Ref := ⟨pid, if ∃ r ∈ s.refs ip, r.stage = .freeing then .late else .kept⟩

def take (pid : Nat) (ip : Ip) : Sys := s.setRefs ip (s.arrive ip pid :: s.refs ip)

def advance (ip : Ip) (r : Ref) (stage : Stage) : Sys := s.setRefs ip ({ r with stage := stage } :: (s.refs ip).erase r)

def forget (ip : Ip) (r : Ref) : Sys := s.setRefs ip ((s.refs ip).erase r)

def next : Act → Option Sys
  | .beginOp => s.exec beginOp fun _ t => t
  | .endOp => s.exec endOp fun _ t => t
  | .iget pid inum =>
    if 0 < inum ∧ inum < s.fs.sb.ninodes then s.exec (iget rootdev inum) fun ip t => t.take pid ip else none
  | .idup ip r pid =>
    if r ∈ s.refs ip ∧ (r.stage = .kept ∨ r.stage = .late ∨ r.stage = .locked) then
      s.exec (idup ip) fun ip t => t.take pid ip
    else none
  | .ilock ip r =>
    if r ∈ s.refs ip ∧ (r.stage = .kept ∨ r.stage = .late) then s.exec (ilock ip) fun _ t => t.advance ip r .locked
    else none
  | .work ip r w => if r ∈ s.refs ip ∧ r.stage = .locked then s.exec (w.run ip) fun _ t => t else none
  | .iunlock ip r =>
    if r ∈ s.refs ip ∧ r.stage = .locked then s.exec (iunlock ip) fun _ t => t.advance ip r .kept else none
  | .iput ip r =>
    if r ∈ s.refs ip ∧ (r.stage = .kept ∨ r.stage = .late) then
      s.exec (iputCheck ip) fun frees t => if frees then t.advance ip r .freeing else t.forget ip r
    else none
  | .free ip r =>
    if r ∈ s.refs ip ∧ r.stage = .freeing then s.exec (iputFree ip) fun _ t => t.advance ip r .dropping else none
  | .drop ip r =>
    if r ∈ s.refs ip ∧ r.stage = .dropping then s.exec (iputDrop ip) fun _ t => t.forget ip r else none
  | .ialloc pid type inum =>
    if type ≠ 0 ∧ 0 < inum ∧ inum < s.fs.sb.ninodes then
      s.exec (claim type inum) fun found t => if found then { t with claims := (pid, inum) :: t.claims } else t
    else none
  | .claimed pid inum =>
    if (pid, inum) ∈ s.claims then
      s.exec (iget rootdev inum) fun ip t => { t.take pid ip with claims := s.claims.erase (pid, inum) }
    else none

structure Fresh : Prop where
  consistent : Consistent s.fs
  unused : ∀ ip, (s.fs.itable ip).ref = 0 ∧ (s.fs.itable ip).locked = false
  refs : ∀ ip, s.refs ip = []
  claims : s.claims = []

end Sys

open Fs Prog Tally
open Function (update_eq_self update_of_ne update_self)

def Ref.holds (r : Ref) : Nat := if r.stage = .locked ∨ r.stage = .freeing then 1 else 0

def Ref.early (r : Ref) : Nat := if r.stage = .late then 0 else 1

structure Tokens (x : Entry) (n : Node) (l : List Ref) : Prop where
  count : x.ref = l.length
  lock : weight Ref.holds l = x.locked.toNat
  loaded : ∀ r ∈ l, 0 < r.holds → x.valid = true
  freeing : ∀ r ∈ l, r.stage = .freeing → n.nlink = 0 ∧ weight Ref.early l = 1

namespace Tokens

variable {x : Entry} {n n' : Node} {l : List Ref} {r : Ref}

lemma ref_pos (h : Tokens x n l) (hr : r ∈ l) : 0 < x.ref := by
  have hPos := List.length_pos_of_mem hr
  rw [h.count]
  omega

lemma holds_of_freeing (hr : r.stage = .freeing) : r.holds = 1 := by
  unfold Ref.holds
  rw [if_pos (.inr hr)]

lemma holds_of_locked (hr : r.stage = .locked) : r.holds = 1 := by
  unfold Ref.holds
  rw [if_pos (.inl hr)]

lemma weight_advance {φ : Ref → Nat} (hr : r ∈ l) (stage : Stage) :
    weight φ ({ r with stage := stage } :: l.erase r) + φ r = φ { r with stage := stage } + weight φ l := by
  have hErase := weight_erase (φ := φ) hr
  rw [weight_cons]
  omega

lemma length_advance (hr : r ∈ l) {stage : Stage} : ({ r with stage := stage } :: l.erase r).length = l.length := by
  rw [List.length_cons, List.length_erase_of_mem hr]
  have := List.length_pos_of_mem hr
  omega

lemma le_weight_erase {φ : Ref → Nat} {r' : Ref} (hr : r ∈ l) (hr' : r' ∈ l) (hne : r' ≠ r) : φ r + φ r' ≤ weight φ l := by
  have hErase := weight_erase (φ := φ) hr
  have hLe := le_weight (φ := φ) ((List.mem_erase_of_ne hne).mpr hr')
  omega

lemma not_freeing (h : Tokens x n l) (hr : r ∈ l) (hLocked : r.stage = .locked) {r' : Ref} (hr' : r' ∈ l) :
    r'.stage ≠ .freeing := by
  intro hFree
  have hne : r' ≠ r := by
    rintro rfl
    rw [hFree] at hLocked
    cases hLocked
  have hTwo := le_weight_erase (φ := Ref.holds) hr hr' hne
  rw [holds_of_locked hLocked, holds_of_freeing hFree, h.lock] at hTwo
  have := x.locked.toNat_le
  omega

lemma not_freeing_of_unlocked (h : Tokens x n l) (hUnlocked : x.locked = false) {r' : Ref} (hr' : r' ∈ l) :
    r'.stage ≠ .freeing := by
  intro hFree
  have hOne := le_weight (φ := Ref.holds) hr'
  rw [holds_of_freeing hFree, h.lock, hUnlocked] at hOne
  exact absurd hOne (by decide)

lemma of_nil (h : Tokens x n []) (n' : Node) : Tokens x n' [] := ⟨h.count, h.lock, h.loaded, fun _ hr => absurd hr List.not_mem_nil⟩

lemma add (h : Tokens x n l) (hr : r.stage = .late ∨ (r.stage = .kept ∧ ∀ r' ∈ l, r'.stage ≠ .freeing)) :
    Tokens { x with ref := x.ref + 1 } n (r :: l) := by
  have hHolds : r.holds = 0 := by
    unfold Ref.holds
    rcases hr with hr | ⟨hr, -⟩ <;> simp [hr]
  refine ⟨?_, ?_, ?_, ?_⟩
  · rw [List.length_cons, h.count]
    push_cast
    rfl
  · rw [weight_cons, hHolds, Nat.zero_add]
    exact h.lock
  · grind [h.loaded]
  · intro r' hr' hFree
    rcases List.mem_cons.mp hr' with rfl | hr'
    · rcases hr with hr | ⟨hr, -⟩ <;> rw [hr] at hFree <;> cases hFree
    · obtain ⟨hLink, hEarly⟩ := h.freeing r' hr' hFree
      rcases hr with hr | ⟨-, hNone⟩
      · have hZero : r.early = 0 := if_pos hr
        rw [weight_cons, hZero, Nat.zero_add]
        exact ⟨hLink, hEarly⟩
      · exact absurd hFree (hNone r' hr')

lemma first (h : Tokens x n []) (hr : r.stage = .kept) (dev inum : Nat) :
    Tokens { x with dev := dev, inum := inum, ref := 1, valid := false } n' [r] := by
  have hZero : x.ref = 0 := h.count
  have hAdd := (h.of_nil n').add (.inr ⟨hr, fun _ hr' => absurd hr' List.not_mem_nil⟩)
  refine ⟨rfl, hAdd.lock, ?_, hAdd.freeing⟩
  intro r' hr' hPos
  rw [List.mem_singleton.mp hr'] at hPos
  unfold Ref.holds at hPos
  simp [hr] at hPos

lemma ilock (h : Tokens x n l) (hr : r ∈ l) (hUnlocked : x.locked = false) :
    Tokens { x with locked := true, valid := true } n ({ r with stage := .locked } :: l.erase r) := by
  have hZero : weight Ref.holds l = 0 := by
    rw [h.lock, hUnlocked]
    rfl
  have hAdvance := weight_advance (φ := Ref.holds) hr .locked
  have hLocked : ({ r with stage := .locked } : Ref).holds = 1 := rfl
  have hOld := le_weight (φ := Ref.holds) hr
  refine ⟨?_, ?_, fun _ _ _ => rfl, ?_⟩
  · rw [length_advance hr]
    exact h.count
  · change _ = 1
    omega
  · grind [h.not_freeing_of_unlocked]

lemma iunlock (h : Tokens x n l) (hr : r ∈ l) (hLocked : r.stage = .locked) :
    Tokens { x with locked := false } n ({ r with stage := .kept } :: l.erase r) := by
  have hAdvance := weight_advance (φ := Ref.holds) hr .kept
  have hKept : ({ r with stage := .kept } : Ref).holds = 0 := rfl
  have hOne := holds_of_locked hLocked
  have hLock := h.lock
  have hLe := x.locked.toNat_le
  refine ⟨?_, ?_, ?_, ?_⟩
  · rw [length_advance hr]
    exact h.count
  · change _ = 0
    omega
  · grind [h.loaded]
  · grind [h.not_freeing]

lemma work (h : Tokens x n l) (hr : r ∈ l) (hLocked : r.stage = .locked) : Tokens x n' l :=
  ⟨h.count, h.lock, h.loaded, fun _ hr' hFree => absurd hFree (h.not_freeing hr hLocked hr')⟩

lemma drop (h : Tokens x n l) (hr : r ∈ l) (hHolds : r.holds = 0) : Tokens { x with ref := x.ref - 1 } n (l.erase r) := by
  have hErase := weight_erase (φ := Ref.holds) hr
  have hLength := List.length_erase_of_mem hr
  have hPos := List.length_pos_of_mem hr
  refine ⟨?_, ?_, ?_, ?_⟩
  · change x.ref - 1 = _
    rw [hLength, h.count]
    omega
  · have hLock := h.lock
    change _ = x.locked.toNat
    omega
  · intro r' hr' hHeld
    exact h.loaded r' (List.mem_of_mem_erase hr') hHeld
  · intro r' hr' hFree
    obtain ⟨hLink, hEarly⟩ := h.freeing r' (List.mem_of_mem_erase hr') hFree
    have hne : r' ≠ r := by
      rintro rfl
      rw [holds_of_freeing hFree] at hHolds
      cases hHolds
    have hTwo := le_weight_erase (φ := Ref.early) hr (List.mem_of_mem_erase hr') hne
    have hOne : r'.early = 1 := by
      unfold Ref.early
      rw [hFree]
      rfl
    have hEarlyErase := weight_erase (φ := Ref.early) hr
    exact ⟨hLink, by omega⟩

lemma eq_singleton (h : Tokens x n l) (hr : r ∈ l) (hOne : x.ref = 1) : l = [r] := by
  have hLength : l.length = 1 := by
    have hCount := h.count
    omega
  obtain ⟨r', rfl⟩ := List.length_eq_one_iff.mp hLength
  rw [List.mem_singleton.mp hr]

lemma iput (h : Tokens x n l) (hr : r ∈ l) (hOne : x.ref = 1) (hValid : x.valid = true) (hLink : n.nlink = 0) :
    Tokens { x with locked := true } n ({ r with stage := .freeing } :: l.erase r) := by
  rw [h.eq_singleton hr hOne, List.erase_cons_head]
  exact ⟨hOne, rfl, fun _ _ _ => hValid, fun _ _ _ => ⟨hLink, rfl⟩⟩

lemma free (h : Tokens x n l) (hr : r ∈ l) (hFree : r.stage = .freeing) :
    Tokens { x with valid := false, locked := false } n' ({ r with stage := .dropping } :: l.erase r) := by
  have hAdvance := weight_advance (φ := Ref.holds) hr .dropping
  have hDropping : ({ r with stage := .dropping } : Ref).holds = 0 := rfl
  have hOne := holds_of_freeing hFree
  have hLock := h.lock
  have hLe := x.locked.toNat_le
  have hNone : weight Ref.holds ({ r with stage := .dropping } :: l.erase r) = 0 := by omega
  refine ⟨?_, hNone, ?_, ?_⟩
  · rw [length_advance hr]
    exact h.count
  · intro r' hr' hPos
    have := le_weight (φ := Ref.holds) hr'
    omega
  · grind [le_weight, holds_of_freeing]

lemma late_of_freeing (h : Tokens x n l) (hr : r ∈ l) (hFree : r.stage = .freeing) {r' : Ref} (hr' : r' ∈ l) (hne : r' ≠ r) :
    r'.stage = .late := by
  by_contra hNot
  have hTwo := le_weight_erase (φ := Ref.early) hr hr' hne
  have hOne : r.early = 1 := by
    unfold Ref.early
    rw [hFree]
    rfl
  rw [(h.freeing r hr hFree).2, hOne, show r'.early = 1 from if_neg hNot] at hTwo
  omega

end Tokens

/-! ## Steps -/

namespace Sys

structure Inv (s : Sys) : Prop where
  consistent : Consistent s.fs
  tokens : ∀ ip, Tokens (s.fs.entries ip) (s.fs.files (s.fs.entries ip).inum) (s.refs ip)
  claims : ∀ c ∈ s.claims, 0 < c.2 ∧ c.2 < s.fs.sb.ninodes

/-- A step leaves the file of every inode alone to which there is a reference, unless it is
the work of whoever has the inode locked. References that came late do not count. -/
def Keeps (s : Sys) (a : Act) (t : Sys) : Prop :=
  ∀ ip r, r ∈ s.refs ip → r.stage = .kept ∨ r.stage = .locked → (s.fs.files (s.fs.entries ip).inum).type ≠ 0 →
    (∀ r' w, a ≠ .work ip r' w) → t.fs.files (s.fs.entries ip).inum = s.fs.files (s.fs.entries ip).inum

variable {s t : Sys} {u : FsState} {a : Act} {ip jp : Ip} {r : Ref} {x : Entry} {f : Nat → Node} {l : List Ref} {i pid : Nat}
  {c : List (Nat × Nat)}

lemma exec_eq_some {α : Type} {m : FsM α} {k : α → Sys → Sys} (h : s.exec m k = some t) :
    ∃ b u, m s.fs = .ok (b, u) ∧ t = k b { s with fs := u } := by
  unfold exec at h
  split at h
  · exact ⟨_, _, by assumption, (Option.some.inj h).symm⟩
  · cases h

lemma ite_eq_some {p : Prop} [Decidable p] {o : Option Sys} (h : (if p then o else none) = some t) : p ∧ o = some t := by
  split at h
  · exact ⟨by assumption, h⟩
  · cases h

namespace Inv

lemma view (h : s.Inv) : View s.fs s.fs.sb s.fs.entries s.fs.files := ⟨h.consistent, rfl, rfl, rfl⟩

lemma ref_pos (h : s.Inv) (hr : r ∈ s.refs ip) : 0 < (s.fs.entries ip).ref := (h.tokens ip).ref_pos hr

lemma inum_ne (h : s.Inv) (hip : 0 < (s.fs.entries ip).ref) (hjp : s.refs jp ≠ []) (hne : jp ≠ ip) :
    (s.fs.entries jp).inum ≠ (s.fs.entries ip).inum := by
  obtain ⟨r, hr⟩ := List.exists_mem_of_ne_nil _ hjp
  intro hEq
  exact hne (h.view.table.unique jp ip (h.ref_pos hr) hip hEq)

lemma set (h : s.Inv) (hView : View u s.fs.sb (Function.update s.fs.entries ip x) f)
    (hFiles : ∀ jp, jp ≠ ip → s.refs jp ≠ [] → f (s.fs.entries jp).inum = s.fs.files (s.fs.entries jp).inum)
    (hTokens : Tokens x (f x.inum) l) (hClaims : ∀ p ∈ c, p ∈ s.claims) :
    Inv ⟨u, Function.update s.refs ip l, c⟩ := by
  refine ⟨hView.consistent, ?_, ?_⟩
  · intro jp
    change Tokens (u.entries jp) (u.files (u.entries jp).inum) (Function.update s.refs ip l jp)
    rw [hView.entries, hView.files]
    by_cases hj : jp = ip
    · rw [hj, update_self, update_self]
      exact hTokens
    · rw [update_of_ne hj, update_of_ne hj]
      by_cases hNil : s.refs jp = []
      · have hOld := h.tokens jp
        rw [hNil] at hOld ⊢
        exact hOld.of_nil _
      · rw [hFiles jp hj hNil]
        exact h.tokens jp
  · intro p hp
    rw [hView.sb]
    exact h.claims p (hClaims p hp)

lemma take {e : Ip → Entry} (h : s.Inv) (hTook : Took s.fs.entries i ip e) (hView : View u s.fs.sb e s.fs.files)
    (hClaims : ∀ p ∈ c, p ∈ s.claims) :
    Inv ⟨u, Function.update s.refs ip (s.arrive ip pid :: s.refs ip), c⟩ := by
  have hTokens := h.tokens ip
  cases hTook with
  | again hRef hInum =>
    apply h.set hView (fun _ _ _ => rfl) _ hClaims
    apply hTokens.add
    unfold arrive
    split
    · exact .inl rfl
    · rename_i hNone
      exact .inr ⟨rfl, fun r hr hFree => hNone ⟨r, hr, hFree⟩⟩
  | first hRef hNone =>
    have hNil : s.refs ip = [] := by
      apply List.eq_nil_of_length_eq_zero
      have hCount := hTokens.count
      omega
    rw [hNil] at hTokens ⊢
    apply h.set hView (fun _ _ _ => rfl) _ hClaims
    apply hTokens.first
    unfold arrive
    rw [if_neg]
    rintro ⟨r, hr, -⟩
    rw [hNil] at hr
    cases hr

end Inv

lemma Keeps.of_files (h : t.fs.files = s.fs.files) : Keeps s a t := fun _ _ _ _ _ _ => by rw [h]

section

private lemma mild_trivial : ∀ e, Mild e → (fun _ : Stop => True) e := fun _ _ => trivial

private lemma calm_trivial : ∀ e, Mild e → LogFits e → (fun _ : Stop => True) e := fun _ _ _ => trivial

lemma Inv.ilock (h : s.Inv) (hr : r ∈ s.refs ip) (ht : s.exec (Fs.ilock ip) (fun _ t => t.advance ip r .locked) = some t) :
    t.Inv ∧ t.fs.files = s.fs.files := by
  obtain ⟨_, u, hRun, rfl⟩ := exec_eq_some ht
  obtain ⟨-, hUnlocked, hView, -⟩ := wp_ok (ilock_spec calm_trivial h.view (h.ref_pos hr) fun _ _ => trivial) hRun
  refine ⟨?_, hView.files⟩
  exact h.set hView (fun _ _ _ => rfl) ((h.tokens ip).ilock hr hUnlocked) fun _ hp => hp

lemma Inv.iunlock (h : s.Inv) (hr : r ∈ s.refs ip) (hLocked : r.stage = .locked)
    (ht : s.exec (Fs.iunlock ip) (fun _ t => t.advance ip r .kept) = some t) : t.Inv ∧ t.fs.files = s.fs.files := by
  obtain ⟨_, u, hRun, rfl⟩ := exec_eq_some ht
  obtain ⟨-, hView⟩ := wp_ok (iunlock_spec calm_trivial h.view (h.ref_pos hr)) hRun
  refine ⟨?_, hView.files⟩
  exact h.set hView (fun _ _ _ => rfl) ((h.tokens ip).iunlock hr hLocked) fun _ hp => hp

lemma work_spec (h : Consistent u) (hip : Loaded u ip i) (w : Work) :
    wp (w.run ip) (fun _ => True) (fun _ v => ∃ n, Alters u v i n) u := by
  cases w with
  | readi copy off n =>
    apply wp_call (readi_spec h hip copy off n)
    rintro _ v rfl
    exact wp_val ⟨_, .refl h i⟩
  | writei src off n =>
    apply wp_call (writei_spec mild_trivial h hip src off n)
    rintro _ v ⟨sz, f, -, hAlters⟩
    exact wp_val ⟨_, hAlters⟩
  | itrunc =>
    apply wp_post (itrunc_spec mild_trivial h hip)
    rintro _ v ⟨hAlters, -⟩
    exact ⟨_, hAlters⟩
  | iupdate major minor nlink =>
    rw [Work.run, wp_bind]
    refine setAttr_spec mild_trivial h hip _ ?_ ?_
    · exact fun _ => ⟨rfl, rfl, rfl⟩
    intro v hAlters
    exact ⟨_, hAlters⟩

lemma Inv.work (h : s.Inv) {w : Work} (hr : r ∈ s.refs ip) (hLocked : r.stage = .locked)
    (ht : s.exec (w.run ip) (fun _ t => t) = some t) : t.Inv ∧ s.Keeps (.work ip r w) t := by
  obtain ⟨_, u, hRun, rfl⟩ := exec_eq_some ht
  have hRef := h.ref_pos hr
  have hValid := (h.tokens ip).loaded r hr (by rw [Tokens.holds_of_locked hLocked]; exact Nat.one_pos)
  obtain ⟨n, hAlters⟩ := wp_ok (work_spec h.consistent (h.view.loaded hRef hValid) w) hRun
  have hView := h.view.of_alters hAlters
  constructor
  · have hSame : View u s.fs.sb (Function.update s.fs.entries ip (s.fs.entries ip))
        (Function.update s.fs.files (s.fs.entries ip).inum n) := by
      rw [update_eq_self]
      exact hView
    have hSet := h.set (l := s.refs ip) (c := s.claims) hSame
      (fun jp hj hNil => update_of_ne (h.inum_ne hRef hNil hj) ..) ((h.tokens ip).work hr hLocked) fun _ hp => hp
    rwa [update_eq_self] at hSet
  · intro jp r' hr' _ _ hOther
    have hj : jp ≠ ip := by
      rintro rfl
      exact hOther r w rfl
    rw [hView.files]
    exact update_of_ne (h.inum_ne hRef (List.ne_nil_of_mem hr') hj) ..

lemma holds_of_idle (hStage : r.stage = .kept ∨ r.stage = .late) : r.holds = 0 := by
  unfold Ref.holds
  rcases hStage with hs | hs <;> simp [hs]

lemma Inv.unlocked_of_last (h : s.Inv) (hr : r ∈ s.refs ip) (hStage : r.stage = .kept ∨ r.stage = .late) :
    (s.fs.entries ip).ref = 1 → (s.fs.entries ip).valid = true → (s.fs.entries ip).locked = false := by
  intro hOne _
  have hLock := (h.tokens ip).lock
  rw [(h.tokens ip).eq_singleton hr hOne, weight_cons, weight_nil, holds_of_idle hStage] at hLock
  cases hl : (s.fs.entries ip).locked with
  | false => rfl
  | true =>
    rw [hl] at hLock
    cases hLock

lemma Inv.iput (h : s.Inv) (hr : r ∈ s.refs ip) (hStage : r.stage = .kept ∨ r.stage = .late)
    (ht : s.exec (iputCheck ip) (fun frees t => if frees then t.advance ip r .freeing else t.forget ip r) = some t) :
    t.Inv ∧ t.fs.files = s.fs.files := by
  obtain ⟨b, u, hRun, rfl⟩ := exec_eq_some ht
  have hTokens := h.tokens ip
  obtain ⟨-, hSpec⟩ := wp_ok (iputCheck_spec (E := fun _ => True) h.view (h.ref_pos hr) (h.unlocked_of_last hr hStage)) hRun
  cases b with
  | true =>
    obtain ⟨⟨hOne, hValid, hLink⟩, hView⟩ := hSpec
    refine ⟨?_, hView.files⟩
    exact h.set hView (fun _ _ _ => rfl) (hTokens.iput hr hOne hValid hLink) fun _ hp => hp
  | false =>
    obtain ⟨-, hView⟩ := hSpec
    refine ⟨?_, hView.files⟩
    exact h.set hView (fun _ _ _ => rfl) (hTokens.drop hr (holds_of_idle hStage)) fun _ hp => hp

lemma Inv.free (h : s.Inv) (hr : r ∈ s.refs ip) (hFree : r.stage = .freeing)
    (ht : s.exec (iputFree ip) (fun _ t => t.advance ip r .dropping) = some t) : t.Inv ∧ s.Keeps (.free ip r) t := by
  obtain ⟨_, u, hRun, rfl⟩ := exec_eq_some ht
  have hRef := h.ref_pos hr
  have hTokens := h.tokens ip
  have hValid := hTokens.loaded r hr (by rw [Tokens.holds_of_freeing hFree]; exact Nat.one_pos)
  have hView := wp_ok (iputFree_spec mild_trivial h.view hRef hValid) hRun
  constructor
  · exact h.set hView (fun jp hj hNil => update_of_ne (h.inum_ne hRef hNil hj) ..) (hTokens.free hr hFree)
      fun _ hp => hp
  · intro jp r' hr' hStage _ _
    have hj : jp ≠ ip := by
      rintro rfl
      have hne : r' ≠ r := by
        rintro rfl
        rcases hStage with hs | hs <;> rw [hs] at hFree <;> cases hFree
      have hLate := hTokens.late_of_freeing hr hFree hr' hne
      rcases hStage with hs | hs <;> rw [hs] at hLate <;> cases hLate
    change u.files _ = _
    rw [hView.files]
    exact update_of_ne (h.inum_ne hRef (List.ne_nil_of_mem hr') hj) ..

lemma Inv.drop (h : s.Inv) (hr : r ∈ s.refs ip) (hStage : r.stage = .dropping)
    (ht : s.exec (iputDrop ip) (fun _ t => t.forget ip r) = some t) : t.Inv ∧ t.fs.files = s.fs.files := by
  obtain ⟨_, u, hRun, rfl⟩ := exec_eq_some ht
  obtain ⟨-, hView⟩ := wp_ok (iputDrop_spec (E := fun _ => True) h.view (h.ref_pos hr)) hRun
  have hHolds : r.holds = 0 := by
    unfold Ref.holds
    simp [hStage]
  refine ⟨?_, hView.files⟩
  exact h.set hView (fun _ _ _ => rfl) ((h.tokens ip).drop hr hHolds) fun _ hp => hp

lemma claim_spec {type : UInt16} (h : s.Inv) (hi : i < s.fs.sb.ninodes) (hType : type ≠ 0) :
    wp (claim type i) (fun _ => True) (fun found v =>
      if found = true then (s.fs.files i).type = 0 ∧
        View v s.fs.sb s.fs.entries (Function.update s.fs.files i ⟨type, 0, 0, 0, 0, fun _ => 0⟩)
      else v = s.fs) s.fs := by
  unfold claim
  rw [wp_bind, wp_read, wp_ite]
  constructor
  · intro hZero
    have hFree := (h.view.type_eq_zero hi).mpr hZero
    rw [wp_bind, wp_update, wp_bind]
    apply wp_logWrite mild_trivial
    intro l
    exact wp_val ⟨hFree, (claim_view h.view hi hFree hType).withLh l⟩
  · exact fun _ => wp_val rfl

lemma Inv.ialloc {type : UInt16} (h : s.Inv) (hType : type ≠ 0) (hi : 0 < i ∧ i < s.fs.sb.ninodes)
    (ht : s.exec (claim type i) (fun found t => if found then { t with claims := (pid, i) :: t.claims } else t) = some t) :
    t.Inv ∧ s.Keeps (.ialloc pid type i) t := by
  obtain ⟨b, u, hRun, rfl⟩ := exec_eq_some ht
  have hSpec := wp_ok (claim_spec h hi.2 hType) hRun
  cases b with
  | false =>
    have hu : u = s.fs := hSpec
    rw [hu]
    exact ⟨h, Keeps.of_files rfl⟩
  | true =>
    obtain ⟨hFree, hView⟩ := hSpec
    constructor
    · refine ⟨hView.consistent, ?_, ?_⟩
      · intro ip
        change Tokens (u.entries ip) (u.files (u.entries ip).inum) (s.refs ip)
        rw [hView.entries, hView.files]
        have hTokens := h.tokens ip
        refine ⟨hTokens.count, hTokens.lock, hTokens.loaded, ?_⟩
        intro r hr hFreeing
        -- an inode that is being freed is still allocated
        have hValid := hTokens.loaded r hr (by rw [Tokens.holds_of_freeing hFreeing]; exact Nat.one_pos)
        have hLive := h.view.live (h.ref_pos hr) hValid
        have hne : (s.fs.entries ip).inum ≠ i := by
          intro he
          rw [he] at hLive
          exact hLive hFree
        rw [update_of_ne hne]
        exact hTokens.freeing r hr hFreeing
      · intro p hp
        change 0 < p.2 ∧ p.2 < u.sb.ninodes
        rw [hView.sb]
        rcases List.mem_cons.mp hp with rfl | hp
        · exact hi
        · exact h.claims p hp
    · intro ip r _ _ hLive _
      change u.files _ = _
      rw [hView.files]
      apply update_of_ne
      rintro he
      rw [he] at hLive
      exact hLive hFree

lemma Inv.log (h : s.Inv) (hView : View u s.fs.sb s.fs.entries s.fs.files) : Inv { s with fs := u } := by
  refine ⟨hView.consistent, ?_, ?_⟩
  · intro ip
    change Tokens (u.entries ip) (u.files (u.entries ip).inum) (s.refs ip)
    rw [hView.entries, hView.files]
    exact h.tokens ip
  · change ∀ p ∈ s.claims, 0 < p.2 ∧ p.2 < u.sb.ninodes
    rw [hView.sb]
    exact h.claims

lemma Inv.next (h : s.Inv) (ht : s.next a = some t) : t.Inv ∧ s.Keeps a t := by
  cases a with
  | beginOp =>
    obtain ⟨_, u, hRun, rfl⟩ := exec_eq_some (m := beginOp) (k := fun _ t => t) ht
    have hView := wp_ok (beginOp_spec calm_trivial h.view) hRun
    exact ⟨h.log hView, Keeps.of_files hView.files⟩
  | endOp =>
    obtain ⟨_, u, hRun, rfl⟩ := exec_eq_some (m := endOp) (k := fun _ t => t) ht
    have hView := wp_ok (endOp_spec (E := fun _ => True) h.view) hRun
    exact ⟨h.log hView, Keeps.of_files hView.files⟩
  | iget pid inum =>
    obtain ⟨hi, ht⟩ := ite_eq_some ht
    obtain ⟨ip, u, hRun, rfl⟩ := exec_eq_some ht
    obtain ⟨-, e, hTook, hView⟩ := wp_ok (iget_spec calm_trivial h.view hi) hRun
    exact ⟨h.take hTook hView fun _ hp => hp, Keeps.of_files hView.files⟩
  | idup ip r pid =>
    obtain ⟨⟨hr, -⟩, ht⟩ := ite_eq_some ht
    obtain ⟨_, u, hRun, rfl⟩ := exec_eq_some ht
    obtain ⟨rfl, -, e, hTook, hView⟩ := wp_ok (idup_spec (E := fun _ => True) h.view (h.ref_pos hr)) hRun
    exact ⟨h.take hTook hView fun _ hp => hp, Keeps.of_files hView.files⟩
  | ilock ip r =>
    obtain ⟨⟨hr, -⟩, ht⟩ := ite_eq_some ht
    obtain ⟨hInv, hFiles⟩ := h.ilock hr ht
    exact ⟨hInv, Keeps.of_files hFiles⟩
  | work ip r w =>
    obtain ⟨⟨hr, hLocked⟩, ht⟩ := ite_eq_some ht
    exact h.work hr hLocked ht
  | iunlock ip r =>
    obtain ⟨⟨hr, hLocked⟩, ht⟩ := ite_eq_some ht
    obtain ⟨hInv, hFiles⟩ := h.iunlock hr hLocked ht
    exact ⟨hInv, Keeps.of_files hFiles⟩
  | iput ip r =>
    obtain ⟨⟨hr, hStage⟩, ht⟩ := ite_eq_some ht
    obtain ⟨hInv, hFiles⟩ := h.iput hr hStage ht
    exact ⟨hInv, Keeps.of_files hFiles⟩
  | free ip r =>
    obtain ⟨⟨hr, hFree⟩, ht⟩ := ite_eq_some ht
    exact h.free hr hFree ht
  | drop ip r =>
    obtain ⟨⟨hr, hStage⟩, ht⟩ := ite_eq_some ht
    obtain ⟨hInv, hFiles⟩ := h.drop hr hStage ht
    exact ⟨hInv, Keeps.of_files hFiles⟩
  | ialloc pid type inum =>
    obtain ⟨⟨hType, hi⟩, ht⟩ := ite_eq_some ht
    exact h.ialloc hType hi ht
  | claimed pid inum =>
    obtain ⟨hClaim, ht⟩ := ite_eq_some ht
    obtain ⟨ip, u, hRun, rfl⟩ := exec_eq_some ht
    obtain ⟨-, e, hTook, hView⟩ := wp_ok (iget_spec calm_trivial h.view (h.claims _ hClaim)) hRun
    exact ⟨h.take hTook hView fun _ hp => List.mem_of_mem_erase hp, Keeps.of_files hView.files⟩

end

lemma Fresh.inv (h : s.Fresh) : s.Inv := by
  refine ⟨h.consistent, ?_, ?_⟩
  · intro ip
    obtain ⟨hRef, hLocked⟩ := h.unused ip
    rw [h.refs ip]
    refine ⟨hRef, ?_, fun _ hr => absurd hr List.not_mem_nil, fun _ hr => absurd hr List.not_mem_nil⟩
    rw [weight_nil, show (s.fs.entries ip).locked = false from hLocked]
    rfl
  · rw [h.claims]
    nofun

lemma Inv.of_reachable (h : Transition.Reachable Fresh (fun s a t => s.next a = some t) (fun _ _ => True) s) : s.Inv :=
  h.invariant (fun _ hs => hs.inv) fun _ _ _ hs _ ht => (hs.next ht).1

end Sys

lemma dinode_eq {s : Sys} {ip : Ip} (h : s.Inv) (hRef : 0 < (s.fs.itable ip).ref) (hValid : (s.fs.itable ip).valid = true) :
    (s.fs.itable ip).di = s.fs.dinode (s.fs.itable ip).inum := by
  obtain ⟨hDi, hLive⟩ := h.consistent.cached ip hRef hValid
  rw [hDi]
  exact if_pos hLive.1

/-- Whatever the callers do: an inode has one entry in use, whose copy of the inode is the
one on the disk; `iput` starts to free an inode only for the last reference to an inode
without links, and until it has done so only late references come; a file stays as it is
while there are other references to it, but for the work of its lock holder. -/
theorem table_coherent {s : Sys}
    (hs : Transition.Reachable Sys.Fresh (fun s a t => s.next a = some t) (fun _ _ => True) s) :
    (∀ ip jp, 0 < (s.fs.itable ip).ref → 0 < (s.fs.itable jp).ref → (s.fs.itable ip).dev = (s.fs.itable jp).dev →
      (s.fs.itable ip).inum = (s.fs.itable jp).inum → ip = jp) ∧
    (∀ ip, 0 < (s.fs.itable ip).ref → (s.fs.itable ip).valid = true →
      (s.fs.itable ip).di = s.fs.dinode (s.fs.itable ip).inum) ∧
    (∀ ip r u, r ∈ s.refs ip → r.stage = .kept ∨ r.stage = .late → iputCheck ip s.fs = .ok (true, u) →
      s.refs ip = [r] ∧ (s.fs.dinode (s.fs.itable ip).inum).nlink = 0) ∧
    (∀ ip r, r ∈ s.refs ip → r.stage = .freeing →
      (s.fs.dinode (s.fs.itable ip).inum).nlink = 0 ∧ ∀ r' ∈ s.refs ip, r' ≠ r → r'.stage = .late) ∧
    ∀ a t, s.next a = some t → s.Keeps a t := by
  have h := Sys.Inv.of_reachable hs
  refine ⟨?_, ?_, ?_, ?_, ?_⟩
  · intro ip jp hip hjp _ hInum
    exact h.view.table.unique ip jp hip hjp hInum
  · exact fun ip => dinode_eq h
  · intro ip r u hr hStage hRun
    obtain ⟨-, ⟨hOne, hValid, hLink⟩, -⟩ :=
      wp_ok (iputCheck_spec (E := fun _ => True) h.view (h.ref_pos hr) (h.unlocked_of_last hr hStage)) hRun
    refine ⟨(h.tokens ip).eq_singleton hr hOne, ?_⟩
    rw [← dinode_eq h (h.ref_pos hr) hValid, h.view.nlink (h.ref_pos hr) hValid]
    exact hLink
  · intro ip r hr hFree
    have hTokens := h.tokens ip
    have hValid := hTokens.loaded r hr (by rw [Tokens.holds_of_freeing hFree]; exact Nat.one_pos)
    refine ⟨?_, fun r' hr' hne => hTokens.late_of_freeing hr hFree hr' hne⟩
    rw [← dinode_eq h (h.ref_pos hr) hValid, h.view.nlink (h.ref_pos hr) hValid]
    exact (hTokens.freeing r hr hFree).1
  · exact fun a t ht => (h.next ht).2

namespace Sample

def start : Sys := ⟨Fs.Sample.fs, fun _ => [], []⟩

lemma start_fresh : start.Fresh := ⟨Fs.Sample.fs_consistent, fun _ => ⟨rfl, rfl⟩, fun _ => rfl, rfl⟩

def ip0 : Ip := ⟨0, by decide⟩

def ip1 : Ip := ⟨1, by decide⟩

def ref (stage : Stage) : Ref := ⟨1, stage⟩

def removal : List Act :=
  [.beginOp, .iget 1 2, .ilock ip0 (ref .kept), .work ip0 (ref .locked) (.iupdate 0 0 0), .iunlock ip0 (ref .locked),
    .iput ip0 (ref .kept), .iget 2 2]

/-- An entry is reused while the inode of another, which has been dropped, changes. -/
def reuse : List Act :=
  [.beginOp, .iget 1 2, .iget 1 3, .ilock ip1 (ref .kept), .iunlock ip1 (ref .locked), .iput ip1 (ref .kept),
    .iput ip0 (ref .kept), .iget 1 3, .ilock ip0 (ref .kept), .work ip0 (ref .locked) (.iupdate 0 0 2),
    .iunlock ip0 (ref .locked)]

lemma exists_of_run (acts : List Act) (test : Sys → Bool)
    (h : (Transition.run Sys.next acts start).elim false test = true) :
    ∃ s, Transition.Reachable Sys.Fresh (fun s a t => s.next a = some t) (fun _ _ => True) s ∧ test s = true := by
  cases hRun : Transition.run Sys.next acts start with
  | none =>
    rw [hRun] at h
    cases h
  | some s =>
    rw [hRun] at h
    exact ⟨s, .of_run (fun _ _ _ ht => ht) acts (fun _ _ _ => trivial) (.start start_fresh) hRun, h⟩

end Sample

theorem table_coherent_removal : ∃ s : Sys, (Sample.ref .freeing ∈ s.refs Sample.ip0 ∧ ⟨2, .late⟩ ∈ s.refs Sample.ip0) ∧
    ∀ a t, s.next a = some t → s.Keeps a t := by
  obtain ⟨s, hs, hTest⟩ := Sample.exists_of_run Sample.removal
    (fun s => s.refs Sample.ip0 == [⟨2, .late⟩, Sample.ref .freeing]) (by decide +kernel)
  rw [beq_iff_eq] at hTest
  refine ⟨s, ?_, (table_coherent hs).2.2.2.2⟩
  rw [hTest]
  decide

/-- An entry that has been dropped stays valid and falls behind the disk. -/
theorem unused_entry_stale : ∃ s : Sys,
    Transition.Reachable Sys.Fresh (fun s a t => s.next a = some t) (fun _ _ => True) s ∧
    (s.fs.itable Sample.ip1).valid = true ∧ (s.fs.itable Sample.ip1).locked = false ∧
      (s.fs.itable Sample.ip1).di.nlink ≠ (s.fs.dinode (s.fs.itable Sample.ip1).inum).nlink := by
  obtain ⟨s, hs, hTest⟩ := Sample.exists_of_run Sample.reuse
    (fun s => (s.fs.itable Sample.ip1).valid && !(s.fs.itable Sample.ip1).locked &&
      (s.fs.itable Sample.ip1).di.nlink != (s.fs.dinode (s.fs.itable Sample.ip1).inum).nlink) (by decide +kernel)
  simp only [Bool.and_eq_true, Bool.not_eq_true', bne_iff_ne] at hTest
  exact ⟨s, hs, hTest.1.1, hTest.1.2, hTest.2⟩

end Xv6K230.Inodes
