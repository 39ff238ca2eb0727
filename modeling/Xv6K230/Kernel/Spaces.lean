import Xv6K230.Kernel.Table

/-! # All address spaces together

The roles of the pages against the process table: who owns which table and trapframe, and nobody owns a page twice.
-/

namespace Xv6K230

open Vm Riscv Prog
open Function (update_eq_self update_of_ne update_self)

structure Space where
  root : Nat
  sz : Nat
  tf : Nat

structure Spaces (m : Mem) (ρ : Roles) (tr kpt : Nat) (U : Pid → Space) (x : Nat) (A : List Nat) : Prop where
  typed : Typed m ρ
  tramp : Pageable tr ∧ ρ tr = .outside
  table : ∀ i, (U i).root ≠ 0 → UserTable m ρ (U i).root (U i).tf tr (npages (U i).sz)
  size : ∀ i, (U i).sz ≤ trapframeVa
  frame : ∀ i, (U i).tf ≠ 0 → ρ (U i).tf = .frame i
  inj : ∀ i j, (U i).root ≠ 0 → (U i).root = (U j).root → i = j
  extra : ∀ i, (U i).root ≠ 0 → (U i).root ≠ x
  owner : ∀ p r l a, ρ p = .table r l a → r = kpt ∨ r = x ∨ ∃ i, (U i).root = r
  frameOwner : ∀ p n, ρ p = .frame n → ∃ i : Pid, i.val = n ∧ (U i).tf = p
  kernel : kpt ≠ 0 → ρ kpt = .table kpt 2 0 ∧ x ≠ kpt ∧ ∀ i, (U i).root ≠ kpt
  stackOf : ∀ p n, ρ p = .kstack n → n < nproc ∧ kpt ≠ 0 ∧ pte2pa (m.view kpt (kstackVa n / 4096)) = p
  stackAt : kpt ≠ 0 → ∀ n < nproc, (m.view kpt (kstackVa n / 4096)).has pteV ∧
    ρ (pte2pa (m.view kpt (kstackVa n / 4096))) = .kstack n
  plain : ∀ p v, ρ p ≠ .leaf kpt v
  held : ∀ p, ρ p ≠ .held
  args : ∀ p, ρ p = .arg ↔ p ∈ A

namespace Spaces

variable {m m' : Mem} {ρ ρ' : Roles} {tr kpt : Nat} {U : Pid → Space} {x : Nat} {A : List Nat} {r : Nat}

lemma zero_outside (h : Spaces m ρ tr kpt U x A) : ρ 0 = .outside := by
  by_contra hne
  exact (h.typed.toAlloc.pos_of_role hne).1 rfl

/-- A table that is not the kernel's is touched; the process that owns it may have a new
size. -/
lemma touch (h : Spaces m ρ tr kpt U x A) (hTouch : Touches r m ρ m' ρ') (ht' : Typed m' ρ')
    (hk : r ≠ kpt) {U' : Pid → Space} {x' : Nat} (hRoot : ∀ i, (U' i).root = (U i).root)
    (hTf : ∀ i, (U' i).tf = (U i).tf) (hSize : ∀ i, (U' i).sz ≤ trapframeVa)
    (hOther : ∀ i, (U i).root ≠ r → (U' i).sz = (U i).sz)
    (hTable : ∀ i, (U i).root = r → (U i).root ≠ 0 →
      UserTable m' ρ' r (U i).tf tr (npages (U' i).sz))
    (hx : x' ≠ kpt ∨ kpt = 0) (hxU : ∀ i, (U i).root ≠ 0 → (U i).root ≠ x')
    (hOwner : ∀ p l a, ρ' p = .table r l a → r = x' ∨ ∃ i, (U i).root = r)
    (hxx : x = x' ∨ x = r ∨ x = 0) : Spaces m' ρ' tr kpt U' x' A := by
  have hKernelView : kpt ≠ 0 → ∀ v, m'.view kpt v = m.view kpt v :=
    fun hkpt v => hTouch.view_eq h.typed (h.kernel hkpt).1 (Ne.symm hk) v
  refine ⟨ht', ⟨h.tramp.1, (hTouch.keep h.tramp.2 id).1⟩, ?_, hSize, ?_, ?_, ?_, ?_, ?_, ?_, ?_, ?_, ?_, ?_, ?_⟩
  · intro i hi
    rw [hRoot] at hi ⊢
    rw [hTf]
    by_cases hEq : (U i).root = r
    · rw [hEq]
      exact hTable i hEq hi
    · rw [hOther i hEq]
      exact (h.table i hi).frame h.typed hTouch hEq
  · intro i hi
    rw [hTf] at hi ⊢
    exact (hTouch.keep (h.frame i hi) id).1
  · intro i j hi hij
    rw [hRoot] at hi hij
    rw [hRoot] at hij
    exact h.inj i j hi hij
  · intro i hi
    rw [hRoot] at hi ⊢
    exact hxU i hi
  · intro p r' l a hp
    by_cases hEq : r' = r
    · grind
    · have hOld := (hTouch.keep_iff (c := .table r' l a) hEq).mp hp
      obtain hr | hr | ⟨i, hi⟩ := h.owner p r' l a hOld
      · exact .inl hr
      · obtain hxx | hxx | hxx := hxx
        · exact .inr (.inl (hr.trans hxx))
        · exact absurd (hr.trans hxx) hEq
        · have hRoot' := h.typed.toTrees.root_of_table hOld
          rw [hr, hxx, h.zero_outside] at hRoot'
          cases hRoot'
      · exact .inr (.inr ⟨i, (hRoot i).trans hi⟩)
  · intro p n hp
    obtain ⟨i, hi, hp'⟩ := h.frameOwner p n ((hTouch.keep_iff (c := .frame n) id).mp hp)
    exact ⟨i, hi, (hTf i).trans hp'⟩
  · intro hkpt
    obtain ⟨hr, -, hU⟩ := h.kernel hkpt
    refine ⟨(hTouch.keep hr (Ne.symm hk)).1, hx.resolve_right hkpt, fun i => ?_⟩
    rw [hRoot]
    exact hU i
  · intro p n hp
    obtain ⟨hn, hkpt, hView⟩ := h.stackOf p n ((hTouch.keep_iff (c := .kstack n) id).mp hp)
    refine ⟨hn, hkpt, ?_⟩
    rw [hKernelView hkpt]
    exact hView
  · intro hkpt n hn
    rw [hKernelView hkpt]
    obtain ⟨hV, hRole⟩ := h.stackAt hkpt n hn
    exact ⟨hV, (hTouch.keep hRole id).1⟩
  · intro p v hp
    exact h.plain p v ((hTouch.keep_iff (c := .leaf kpt v) (Ne.symm hk)).mp hp)
  · intro p hp
    exact h.held p ((hTouch.keep_iff (c := .held) id).mp hp)
  · intro p
    rw [← h.args p]
    exact hTouch.keep_iff (c := .arg) id

lemma root_ne (h : Spaces m ρ tr kpt U x A) {i : Pid} (hi : (U i).root ≠ 0) : (U i).root ≠ kpt := by
  by_cases hk : kpt = 0
  · rw [hk]
    exact hi
  · exact (h.kernel hk).2.2 i

lemma extra_ne (h : Spaces m ρ tr kpt U x A) (hx : x ≠ 0) : x ≠ kpt := by
  by_cases hk : kpt = 0
  · rw [hk]
    exact hx
  · exact (h.kernel hk).2.1

lemma touch_proc (h : Spaces m ρ tr kpt U x A) {i : Pid} (hi : (U i).root ≠ 0)
    (hTouch : Touches (U i).root m ρ m' ρ') (ht' : Typed m' ρ') {sz' : Nat} (hsz : sz' ≤ trapframeVa)
    (hTable : UserTable m' ρ' (U i).root (U i).tf tr (npages sz')) :
    Spaces m' ρ' tr kpt (Function.update U i { U i with sz := sz' }) x A := by
  have hU : ∀ j, j ≠ i → Function.update U i { U i with sz := sz' } j = U j :=
    fun j hj => update_of_ne hj ..
  refine h.touch hTouch ht' (h.root_ne hi) ?_ ?_ ?_ ?_ ?_ ?_ h.extra ?_ (.inl rfl)
  · intro j
    by_cases hj : j = i
    · rw [hj, update_self]
    · rw [hU j hj]
  · intro j
    by_cases hj : j = i
    · rw [hj, update_self]
    · rw [hU j hj]
  · intro j
    by_cases hj : j = i
    · rw [hj, update_self]
      exact hsz
    · rw [hU j hj]
      exact h.size j
  · intro j hj
    have hne : j ≠ i := by
      rintro rfl
      exact hj rfl
    rw [hU j hne]
  · grind [h.inj]
  · by_cases hk : kpt = 0
    · exact .inr hk
    · exact .inl (h.kernel hk).2.1
  · intro p l a _
    exact .inr ⟨i, rfl⟩

lemma touch_extra (h : Spaces m ρ tr kpt U x A) (hx : x ≠ 0) (hTouch : Touches x m ρ m' ρ')
    (ht' : Typed m' ρ') : Spaces m' ρ' tr kpt U x A :=
  h.touch hTouch ht' (h.extra_ne hx) (fun _ => rfl) (fun _ => rfl) h.size (fun _ _ => rfl)
    (fun i hEq hi => absurd hEq (h.extra i hi)) (.inl (h.extra_ne hx)) h.extra (fun _ _ _ _ => .inl rfl) (.inl rfl)

lemma new_extra (h : Spaces m ρ tr kpt U 0 A) (hr : ρ r = .free) (hTouch : Touches r m ρ m' ρ')
    (ht' : Typed m' ρ') : Spaces m' ρ' tr kpt U r A := by
  have hne : r ≠ 0 := by
    rintro rfl
    rw [h.zero_outside] at hr
    cases hr
  have hk : r ≠ kpt := by
    rintro rfl
    rw [(h.kernel hne).1] at hr
    cases hr
  have hU : ∀ i, (U i).root ≠ 0 → (U i).root ≠ r := by
    intro i hi hEq
    have hRoot := (h.table i hi).root
    rw [hEq, hr] at hRoot
    cases hRoot
  exact h.touch hTouch ht' hk (fun _ => rfl) (fun _ => rfl) h.size (fun _ _ => rfl)
    (fun i hEq hi => absurd hEq (hU i hi)) (.inl hk) hU (fun _ _ _ _ => .inl rfl) (.inr (.inr rfl))

lemma drop_extra (h : Spaces m ρ tr kpt U x A) (hx : x ≠ 0) (hTouch : Touches x m ρ m' ρ')
    (ht' : Typed m' ρ') (hVacant : Vacant ρ' x) : Spaces m' ρ' tr kpt U 0 A := by
  refine h.touch hTouch ht' (h.extra_ne hx) (fun _ => rfl) (fun _ => rfl) h.size (fun _ _ => rfl)
    (fun i hEq hi => absurd hEq (h.extra i hi)) ?_ (fun i hi => hi) ?_ (.inr (.inl rfl))
  · by_cases hk : kpt = 0
    · exact .inr hk
    · exact .inl (Ne.symm hk)
  · intro p l a hp
    have hFree := hVacant p (by rw [hp]; rfl)
    rw [hp] at hFree
    cases hFree

lemma quiet (h : Spaces m ρ tr kpt U x A) (ht' : Typed m' ρ) (hk : m'.kend = m.kend)
    (hs : m'.phystop = m.phystop) (hpage : ∀ p, ρ p ≠ .free → m'.page p = m.page p) :
    Spaces m' ρ tr kpt U x A := by
  have hOne : ρ 1 ≠ .table 1 2 0 := by
    intro hEq
    have hAlign := (h.typed.toAlloc.pos_of_role (p := 1) (by rw [hEq]; exact Role.noConfusion)).2.1
    omega
  have hTouch : Touches 1 m ρ m' ρ := by
    refine ⟨hk, hs, fun p => ?_⟩
    by_cases hp : ρ p = .free
    · refine .inr ⟨?_, ?_⟩ <;> rw [hp] <;> trivial
    · exact .inl ⟨rfl, hpage p hp⟩
  refine h.touch hTouch ht' ?_ (fun _ => rfl) (fun _ => rfl) h.size (fun _ _ => rfl) ?_ ?_ h.extra ?_ (.inl rfl)
  · rintro rfl
    exact hOne (h.kernel (by decide)).1
  · intro i hi hne
    exact absurd (hi ▸ (h.table i hne).root) hOne
  · by_cases hkpt : kpt = 0
    · exact .inr hkpt
    · exact .inl (h.kernel hkpt).2.1
  · intro p l a hp
    exact absurd (h.typed.toTrees.root_of_table hp) hOne

lemma swap (h : Spaces m ρ tr kpt U x A) (i : Pid) {sz' : Nat} (hsz : sz' ≤ trapframeVa)
    (hTable : x ≠ 0 → UserTable m ρ x (U i).tf tr (npages sz')) :
    Spaces m ρ tr kpt (Function.update U i ⟨x, sz', (U i).tf⟩) (U i).root A := by
  have hU : ∀ j, j ≠ i → Function.update U i ⟨x, sz', (U i).tf⟩ j = U j := fun j hj => update_of_ne hj ..
  have hTf : ∀ j, (Function.update U i ⟨x, sz', (U i).tf⟩ j).tf = (U j).tf := by
    intro j
    by_cases hj : j = i
    · rw [hj, update_self]
    · rw [hU j hj]
  refine ⟨h.typed, h.tramp, ?_, ?_, ?_, ?_, ?_, ?_, ?_, ?_, h.stackOf, h.stackAt, h.plain, h.held, h.args⟩
  · grind [h.table]
  · intro j
    by_cases hji : j = i
    · rw [hji, update_self]
      exact hsz
    · rw [hU j hji]
      exact h.size j
  · intro j hj
    rw [hTf] at hj ⊢
    exact h.frame j hj
  · grind [h.extra, h.inj]
  · grind [h.extra, h.inj]
  · grind [h.owner]
  · grind [h.frameOwner]
  · grind [h.kernel]

end Spaces

/-! ## Pages outside the trees -/

def Vm.Role.Plain : Role → Prop
  | .free | .arg | .frame _ => True
  | _ => False

lemma Vm.UserTable.congr {m m' : Mem} {ρ ρ' : Roles} {r tf tr b : Nat} (h : UserTable m ρ r tf tr b)
    (hRoot : ρ' r = .table r 2 0) (hView : ∀ v, m'.view r v = m.view r v)
    (hLeaf : ∀ p v, ρ' p = .leaf r v ↔ ρ p = .leaf r v) : UserTable m' ρ' r tf tr b := by
  refine ⟨hRoot, h.bound, ?_, ?_, fun p v hp => h.leaf p v ((hLeaf p v).mp hp)⟩
  · intro v hv hV
    rw [hView] at hV ⊢
    rw [hLeaf]
    exact h.user v hv hV
  · intro v hv hlt hV
    rw [hView] at hV ⊢
    exact h.top v hv hlt hV

section

variable {m m' : Mem} {ρ : Roles} {p r : Nat} {c : Role}

lemma plain_update_iff (hp : (ρ p).Plain) (hc : c.Plain) {q : Nat} {c' : Role} (hc' : ¬ c'.Plain) :
    Function.update ρ p c q = c' ↔ ρ q = c' := by
  by_cases hqp : q = p
  · grind
  · rw [update_of_ne hqp]

lemma plain_view (ht : Typed m ρ) (hp : (ρ p).Plain) (hpage : ∀ q, q ≠ p → m'.page q = m.page q)
    (hr : ρ r = .table r 2 0) (v : Nat) : m'.view r v = m.view r v := by
  refine ht.toTrees.view_congr hr (fun q l a hq => hpage q ?_) v
  rintro rfl
  rw [hq] at hp
  exact hp

lemma Vm.UserTable.plain {tf tr b : Nat} (h : UserTable m ρ r tf tr b) (ht : Typed m ρ) (hp : (ρ p).Plain)
    (hc : c.Plain) (hpage : ∀ q, q ≠ p → m'.page q = m.page q) :
    UserTable m' (Function.update ρ p c) r tf tr b :=
  h.congr ((plain_update_iff hp hc id).mpr h.root) (plain_view ht hp hpage h.root)
    (fun _ _ => plain_update_iff hp hc id)

end

namespace Spaces

variable {m m' : Mem} {ρ : Roles} {tr kpt : Nat} {U U' : Pid → Space} {x : Nat} {A A' : List Nat} {p : Nat}
  {c : Role}

lemma relabel (h : Spaces m ρ tr kpt U x A) (hp : (ρ p).Plain) (hc : c.Plain)
    (ht' : Typed m' (Function.update ρ p c)) (hpage : ∀ q, q ≠ p → m'.page q = m.page q)
    (hRoot : ∀ i, (U' i).root = (U i).root) (hSz : ∀ i, (U' i).sz = (U i).sz)
    (hTf : ∀ i, (U i).root ≠ 0 → (U' i).tf = (U i).tf)
    (hFrame : ∀ i, (U' i).tf ≠ 0 → Function.update ρ p c (U' i).tf = .frame i)
    (hOwner : ∀ q n, Function.update ρ p c q = .frame n → ∃ i : Pid, i.val = n ∧ (U' i).tf = q)
    (hArgs : ∀ q, Function.update ρ p c q = .arg ↔ q ∈ A') :
    Spaces m' (Function.update ρ p c) tr kpt U' x A' := by
  have hKernelView : kpt ≠ 0 → ∀ v, m'.view kpt v = m.view kpt v :=
    fun hk v => plain_view h.typed hp hpage (h.kernel hk).1 v
  refine ⟨ht', ⟨h.tramp.1, (plain_update_iff hp hc id).mpr h.tramp.2⟩, ?_, ?_, hFrame, ?_, ?_, ?_, hOwner, ?_,
    ?_, ?_, ?_, ?_, hArgs⟩
  · intro i hi
    rw [hRoot] at hi ⊢
    rw [hTf i hi, hSz]
    exact (h.table i hi).plain h.typed hp hc hpage
  · intro i
    rw [hSz]
    exact h.size i
  · intro i j hi hij
    rw [hRoot] at hi hij
    rw [hRoot] at hij
    exact h.inj i j hi hij
  · intro i hi
    rw [hRoot] at hi ⊢
    exact h.extra i hi
  · intro q r l a hq
    obtain hr | hr | ⟨i, hi⟩ := h.owner q r l a ((plain_update_iff hp hc id).mp hq)
    · exact .inl hr
    · exact .inr (.inl hr)
    · exact .inr (.inr ⟨i, (hRoot i).trans hi⟩)
  · intro hk
    obtain ⟨hr, hx, hU⟩ := h.kernel hk
    refine ⟨(plain_update_iff hp hc id).mpr hr, hx, fun i => ?_⟩
    rw [hRoot]
    exact hU i
  · intro q n hq
    obtain ⟨hn, hk, hView⟩ := h.stackOf q n ((plain_update_iff hp hc id).mp hq)
    refine ⟨hn, hk, ?_⟩
    rw [hKernelView hk]
    exact hView
  · intro hk n hn
    rw [hKernelView hk]
    obtain ⟨hV, hRole⟩ := h.stackAt hk n hn
    exact ⟨hV, (plain_update_iff hp hc id).mpr hRole⟩
  · intro q v hq
    exact h.plain q v ((plain_update_iff hp hc id).mp hq)
  · intro q hq
    exact h.held q ((plain_update_iff hp hc id).mp hq)

lemma new_frame (h : Spaces m ρ tr kpt U x A) {i : Pid} (hi : (U i).root = 0) (htf : (U i).tf = 0)
    (hp : ρ p = .free) (hTook : Took m p m') (ht' : Typed m' (Function.update ρ p (.frame i))) :
    Spaces m' (Function.update ρ p (.frame i)) tr kpt (Function.update U i { U i with tf := p }) x A := by
  have hU : ∀ j, j ≠ i → Function.update U i { U i with tf := p } j = U j := fun j hj => update_of_ne hj ..
  refine h.relabel (by rw [hp]; trivial) (by trivial) ht' hTook.page ?_ ?_ ?_ ?_ ?_ ?_
  · intro j
    by_cases hj : j = i
    · rw [hj, update_self]
    · rw [hU j hj]
  · intro j
    by_cases hj : j = i
    · rw [hj, update_self]
    · rw [hU j hj]
  · grind
  · grind [h.frame]
  · grind [h.frameOwner, h.zero_outside]
  · grind [h.args]

lemma free_frame {n : Mem} (h : Spaces m ρ tr kpt U x A) {i : Pid} (hi : (U i).root = 0) (htf : (U i).tf ≠ 0)
    (hTook : Took n (U i).tf m) (ht' : Typed n (Function.update ρ (U i).tf .free)) :
    Spaces n (Function.update ρ (U i).tf .free) tr kpt (Function.update U i { U i with tf := 0 }) x A := by
  have hU : ∀ j, j ≠ i → Function.update U i { U i with tf := 0 } j = U j := fun j hj => update_of_ne hj ..
  have hp := h.frame i htf
  refine h.relabel (by rw [hp]; trivial) (by trivial) ht' (fun q hq => (hTook.page q hq).symm) ?_ ?_ ?_ ?_ ?_ ?_
  · intro j
    by_cases hj : j = i
    · rw [hj, update_self]
    · rw [hU j hj]
  · intro j
    by_cases hj : j = i
    · rw [hj, update_self]
    · rw [hU j hj]
  · grind
  · grind [h.frame]
  · grind [h.frameOwner]
  · grind [h.args]

lemma new_arg (h : Spaces m ρ tr kpt U x A) (hp : ρ p = .free) (hTook : Took m p m')
    (ht' : Typed m' (Function.update ρ p .arg)) :
    Spaces m' (Function.update ρ p .arg) tr kpt U x (A ++ [p]) := by
  refine h.relabel (by rw [hp]; trivial) (by trivial) ht' hTook.page (fun _ => rfl) (fun _ => rfl)
    (fun _ _ => rfl) ?_ ?_ ?_
  · grind [h.frame]
  · intro q n hq
    exact h.frameOwner q n ((update_eq_of_ne Role.noConfusion).mp hq).2
  · grind [h.args]

lemma free_arg (h : Spaces m ρ tr kpt U x (p :: A)) (hnd : p ∉ A) (hTook : Took m' p m)
    (ht' : Typed m' (Function.update ρ p .free)) :
    Spaces m' (Function.update ρ p .free) tr kpt U x A := by
  have hp : ρ p = .arg := (h.args p).mpr List.mem_cons_self
  refine h.relabel (by rw [hp]; trivial) (by trivial) ht' (fun q hq => (hTook.page q hq).symm) (fun _ => rfl)
    (fun _ => rfl) (fun _ _ => rfl) ?_ ?_ ?_
  · grind [h.frame]
  · intro q n hq
    exact h.frameOwner q n ((update_eq_of_ne Role.noConfusion).mp hq).2
  · grind [h.args]

lemma store_plain (h : Spaces m ρ tr kpt U x A) (hp : (ρ p).Plain) (pg : Page) :
    Spaces (m.setPage p pg) ρ tr kpt U x A := by
  have hNotTable : ¬ (ρ p).IsTable := by
    cases hc : ρ p <;> simp_all [Role.Plain, Role.IsTable]
  have hSame : Function.update ρ p (ρ p) = ρ := update_eq_self p ρ
  have hSpaces : Spaces (m.setPage p pg) (Function.update ρ p (ρ p)) tr kpt U x A :=
    h.relabel hp hp (by rw [hSame]; exact h.typed.setPage pg hNotTable) (fun q hq => setPage_page_of_ne m pg hq)
      (fun _ => rfl) (fun _ => rfl) (fun _ _ => rfl) (by rw [hSame]; exact h.frame) (by rw [hSame]; exact h.frameOwner)
      (by rw [hSame]; exact h.args)
  rw [hSame] at hSpaces
  exact hSpaces

end Spaces

end Xv6K230
