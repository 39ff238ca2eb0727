import Xv6K230.Vm.Unmap
import Xv6K230.Vm.User

/-! # User address spaces

`UserTable` says what a process's table looks like: below a bound its mapped pages are user pages of this table, above
there are only the trapframe and the trampoline.
-/

namespace Xv6K230.Vm

open Function (update_of_ne update_self)
open Riscv Prog

lemma trapframeVa_eq : trapframeVa = 274877898752 := by decide
lemma trampolineVa_eq : trampolineVa = 274877902848 := by decide
lemma maxva_eq : maxva = 274877906944 := by decide

-- the page numbers of TRAPFRAME and TRAMPOLINE
def trapframeVpn : Nat := 67108862
def trampolineVpn : Nat := 67108863

lemma trapframeVa_vpn : trapframeVa / 4096 = trapframeVpn := by decide
lemma trampolineVa_vpn : trampolineVa / 4096 = trampolineVpn := by decide

def Role.Of (r : Nat) : Role → Prop
  | .free => True
  | .table r' _ _ => r' = r
  | .leaf r' _ => r' = r
  | _ => False

structure Touches (r : Nat) (m : Mem) (ρ : Roles) (m' : Mem) (ρ' : Roles) : Prop where
  kend : m'.kend = m.kend
  phystop : m'.phystop = m.phystop
  page : ∀ p, (ρ' p = ρ p ∧ m'.page p = m.page p) ∨ (ρ p).Of r ∧ (ρ' p).Of r

namespace Touches

variable {r : Nat} {m m1 m2 : Mem} {ρ ρ1 ρ2 : Roles}

lemma refl (r : Nat) (m : Mem) (ρ : Roles) : Touches r m ρ m ρ :=
  ⟨rfl, rfl, fun _ => .inl ⟨rfl, rfl⟩⟩

lemma trans (h1 : Touches r m ρ m1 ρ1) (h2 : Touches r m1 ρ1 m2 ρ2) : Touches r m ρ m2 ρ2 := by
  refine ⟨h2.kend.trans h1.kend, h2.phystop.trans h1.phystop, ?_⟩
  intro p
  obtain ⟨hEq1, hp1⟩ | ⟨hOf, hOf1⟩ := h1.page p
  · grind [h2.page]
  · grind [h2.page]

lemma keep (h : Touches r m ρ m1 ρ1) {p : Nat} {c : Role} (hp : ρ p = c) (hc : ¬ c.Of r) :
    ρ1 p = c ∧ m1.page p = m.page p := by
  obtain ⟨hEq, hpage⟩ | ⟨hOf, -⟩ := h.page p
  · exact ⟨hEq.trans hp, hpage⟩
  · exact absurd (hp ▸ hOf) hc

lemma keep_iff (h : Touches r m ρ m1 ρ1) {p : Nat} {c : Role} (hc : ¬ c.Of r) : ρ1 p = c ↔ ρ p = c := by
  obtain ⟨hEq, -⟩ | ⟨hOf, hOf1⟩ := h.page p
  · rw [hEq]
  · exact ⟨fun hp => absurd (hp ▸ hOf1) hc, fun hp => absurd (hp ▸ hOf) hc⟩

lemma view_eq (h : Touches r m ρ m1 ρ1) (ht : Typed m ρ) {r' : Nat} (hr : ρ r' = .table r' 2 0)
    (hne : r' ≠ r) (v : Nat) : m1.view r' v = m.view r' v :=
  ht.toTrees.view_congr hr (fun _ _ _ hq => (h.keep hq hne).2) v

end Touches

/-- Free pages joined the space of `r`; nothing in use changed but page-table pages of `r`. -/
structure Extends (r : Nat) (m : Mem) (ρ : Roles) (m' : Mem) (ρ' : Roles) : Prop where
  kend : m'.kend = m.kend
  phystop : m'.phystop = m.phystop
  role : ∀ p, ρ p ≠ .free → ρ' p = ρ p
  fresh : ∀ p, ρ p = .free → (ρ' p).Of r
  page : ∀ p, ρ p ≠ .free → (∀ l a, ρ p ≠ .table r l a) → m'.page p = m.page p

namespace Extends

variable {r : Nat} {m m1 m2 : Mem} {ρ ρ1 ρ2 : Roles}

lemma refl (r : Nat) (m : Mem) (ρ : Roles) : Extends r m ρ m ρ :=
  ⟨rfl, rfl, fun _ _ => rfl, fun p hp => by rw [hp]; trivial, fun _ _ _ => rfl⟩

lemma keep (h : Extends r m ρ m1 ρ1) {p : Nat} {c : Role} (hp : ρ p = c) (hc : c ≠ .free) : ρ1 p = c := by
  rw [h.role p (by rw [hp]; exact hc), hp]

lemma trans (h1 : Extends r m ρ m1 ρ1) (h2 : Extends r m1 ρ1 m2 ρ2) : Extends r m ρ m2 ρ2 := by
  refine ⟨h2.kend.trans h1.kend, h2.phystop.trans h1.phystop, ?_, ?_, ?_⟩
  · grind [h1.role, h2.role]
  · grind [h2.fresh, h2.role, h1.fresh]
  · grind [h1.role, h2.page, h1.page]

lemma touches (h : Extends r m ρ m1 ρ1) : Touches r m ρ m1 ρ1 := by
  refine ⟨h.kend, h.phystop, ?_⟩
  intro p
  by_cases hp : ρ p = .free
  · exact .inr ⟨by rw [hp]; trivial, h.fresh p hp⟩
  · by_cases hT : ∃ l a, ρ p = .table r l a
    · obtain ⟨l, a, hT⟩ := hT
      refine .inr ⟨by rw [hT]; rfl, ?_⟩
      rw [h.role p hp, hT]
      rfl
    · exact .inl ⟨h.role p hp, h.page p hp (fun l a hEq => hT ⟨l, a, hEq⟩)⟩

end Extends

lemma Grown.ext {r : Nat} {m m' : Mem} {ρ ρ' : Roles} (h : Grown r m ρ m' ρ') : Extends r m ρ m' ρ' := by
  refine ⟨h.kend, h.phystop, fun p hp => h.role_of_ne_free rfl hp, ?_, ?_⟩
  · intro p hp
    obtain hEq | ⟨-, l, a, hT⟩ := h.role p
    · rw [hEq, hp]
      trivial
    · rw [hT]
      rfl
  · intro p hp hT
    refine h.page p (fun l a hEq => hT l a ?_)
    rw [← h.role_of_ne_free rfl hp, hEq]

lemma Shrunk.touches {r : Nat} {S : Nat → Prop} {m m' : Mem} {ρ ρ' : Roles} (h : Shrunk r S m ρ m' ρ') :
    Touches r m ρ m' ρ' := by
  refine ⟨h.kend, h.phystop, ?_⟩
  intro p
  obtain hEq | ⟨hFree, v, -, hLeaf⟩ := h.role p
  · by_cases hT : ∃ l a, ρ p = .table r l a
    · obtain ⟨l, a, hT⟩ := hT
      refine .inr ⟨by rw [hT]; rfl, ?_⟩
      rw [hEq, hT]
      rfl
    · exact .inl ⟨hEq, h.page p hEq (fun l a hEq => hT ⟨l, a, hEq⟩)⟩
  · exact .inr ⟨by rw [hLeaf]; rfl, by rw [hFree]; trivial⟩

/-! ## A fresh user page -/

section

variable {E : Stop → Prop} {m m1 : Mem} {ρ : Roles} {r va p : Nat} {perm : Pte} {pg : Page}

lemma missingFrom_congr {m' : Mem} (h : Trees m ρ) (hpage : ∀ q l a, ρ q = .table r l a → m'.page q = m.page q) :
    ∀ (l pt a : Nat), ρ pt = .table r l a → m'.missingFrom va l pt = m.missingFrom va l pt := by
  intro l
  induction l with
  | zero => exact fun _ _ _ => rfl
  | succ l ih =>
    intro pt a hpt
    rw [Mem.missingFrom, Mem.missingFrom, pte_congr (hpage pt _ a hpt)]
    split
    · rename_i hv
      exact ih _ _ (h.down pt r l a hpt _ (px_lt _ _) hv).1
    · rfl

structure Added (r v : Nat) (e : Pte) (p : Nat) (pg : Page) (m : Mem) (ρ : Roles) (m' : Mem) (ρ' : Roles) :
    Prop where
  typed : Typed m' ρ'
  ext : Extends r m ρ m' ρ'
  view : ∀ r' v', ρ r' = .table r' 2 0 → v' < 512 ^ 3 →
    m'.view r' v' = if r' = r ∧ v' = v then e else m.view r' v'
  leaf : ρ' p = .leaf r v
  only : ∀ q w, ρ' q = .leaf r w → ρ q = .leaf r w ∨ q = p ∧ w = v
  tables : ∀ q l a, ρ' q = .table r l a → ρ q = .table r l a ∨ a = v / 512 ^ (l + 1)
  content : m'.page p = pg
  fresh : ρ p = .free
  count : m'.freelist.length + (1 + m.missing r (v * 4096)) = m.freelist.length

structure Unmapped (r : Nat) (m : Mem) (ρ : Roles) (m' : Mem) (ρ' : Roles) : Prop where
  typed : Typed m' ρ'
  ext : Extends r m ρ m' ρ'
  view : ∀ r' v', ρ r' = .table r' 2 0 → v' < 512 ^ 3 → m'.view r' v' = m.view r' v'
  only : ∀ q w, ρ' q = .leaf r w → ρ q = .leaf r w

lemma Unmapped.refl (h : Typed m ρ) : Unmapped r m ρ m ρ :=
  ⟨h, Extends.refl r m ρ, fun _ _ _ _ => rfl, fun _ _ hq => hq⟩

structure Holding (r p : Nat) (pg : Page) (m : Mem) (ρ : Roles) (m' : Mem) (ρ' : Roles) : Prop where
  typed : Typed m' ρ'
  kend : m'.kend = m.kend
  phystop : m'.phystop = m.phystop
  fresh : ρ p = .free
  held : ρ' p = .held
  role : ∀ q, q ≠ p → ρ' q = ρ q ∨ ρ q = .free ∧ ∃ l a, ρ' q = .table r l a
  page : ∀ q, q ≠ p → ρ q ≠ .free → (∀ l a, ρ q ≠ .table r l a) → m'.page q = m.page q
  content : m'.page p = pg

namespace Holding

variable {m' : Mem} {ρ' : Roles}

lemma keep (h : Holding r p pg m ρ m' ρ') {q : Nat} {c : Role} (hq : ρ q = c) (hc : c ≠ .free) : ρ' q = c := by
  have hqp : q ≠ p := ne_of_role hq h.fresh hc
  obtain hEq | ⟨hFree, -⟩ := h.role q hqp
  · exact hEq.trans hq
  · exact absurd (hq.symm.trans hFree) hc

lemma ext_update (h : Holding r p pg m ρ m' ρ') {m'' : Mem} {c : Role} (hc : c.Of r)
    (hk : m''.kend = m'.kend) (hs : m''.phystop = m'.phystop) (hpage : ∀ q, q ≠ p → m''.page q = m'.page q) :
    Extends r m ρ m'' (Function.update ρ' p c) := by
  refine ⟨hk.trans h.kend, hs.trans h.phystop, ?_, ?_, ?_⟩
  · intro q hq
    have hqp : q ≠ p := fun hEq => hq (hEq ▸ h.fresh)
    rw [update_of_ne hqp]
    exact h.keep rfl hq
  · intro q hq
    by_cases hqp : q = p
    · subst hqp
      rw [update_self]
      exact hc
    · rw [update_of_ne hqp]
      obtain hEq | ⟨-, l, a, hT⟩ := h.role q hqp
      · rw [hEq, hq]
        trivial
      · rw [hT]
        rfl
  · grind [h.fresh, h.page]

lemma leaf_of_update (h : Holding r p pg m ρ m' ρ') {c : Role} {q w : Nat} (hqp : q ≠ p)
    (hq : Function.update ρ' p c q = .leaf r w) : ρ q = .leaf r w := by
  rw [update_of_ne hqp] at hq
  obtain hEq | ⟨-, l, a, hT⟩ := h.role q hqp
  · exact hEq.symm.trans hq
  · rw [hT] at hq
    cases hq

end Holding

lemma holding_of_took (hFree : ρ p = .free) (hTook : Took m p m1)
    (h1 : Typed m1 (Function.update ρ p .held)) (pg : Page) :
    Holding r p pg m ρ (m1.setPage p pg) (Function.update ρ p .held) := by
  refine ⟨h1.setPage pg ?_, hTook.kend, hTook.phystop, hFree, update_self .., ?_, ?_, setPage_page_same ..⟩
  · rw [update_self]
    exact id
  · intro q hqp
    exact .inl (update_of_ne hqp ..)
  · intro q hqp _ _
    exact (setPage_page_of_ne _ _ hqp).trans (hTook.page q hqp)

def Placed (r v : Nat) (e : Pte) (p : Nat) (pg : Page) (m : Mem) (ρ : Roles) (ok : Bool) (m' : Mem) : Prop :=
  if ok then ∃ ρ', Added r v e p pg m ρ m' ρ'
  else ∃ ρ', Holding r p pg m ρ m' ρ' ∧ m.freelist.length < 1 + m.missing r (v * 4096) ∧
    ∀ r' v', ρ r' = .table r' 2 0 → v' < 512 ^ 3 → m'.view r' v' = m.view r' v'

lemma place_spec (h : Typed m ρ) (hr : ρ r = .table r 2 0) {v : Nat} (hv : v < trampolineVpn + 1)
    (hInvalid : (m.view r v).has pteV = false) (hPerm : perm &&& ppnMask = 0#64) (hFree : ρ p = .free)
    (hTook : Took m p m1) (h1 : Typed m1 (Function.update ρ p .held)) :
    wp (mappages r (v * 4096) pgsize p perm) E (Placed r v (pa2pte p ||| perm ||| pteV) p pg m ρ)
      (m1.setPage p pg) := by
  have hHold : Holding r p pg m ρ _ _ := holding_of_took (r := r) hFree hTook h1 pg
  have hTable : ∀ q r' l a, ρ q = .table r' l a → (m1.setPage p pg).page q = m.page q := by
    intro q r' l a hq
    have hqp : q ≠ p := ne_of_role hq hFree Role.noConfusion
    exact (setPage_page_of_ne _ _ hqp).trans (hTook.page q hqp)
  have hView : ∀ r' v', ρ r' = .table r' 2 0 → (m1.setPage p pg).view r' v' = m.view r' v' :=
    fun r' v' hr' => h.toTrees.view_congr hr' (fun q l a hq => hTable q r' l a hq) v'
  have hMissing : (m1.setPage p pg).missing r (v * 4096) = m.missing r (v * 4096) :=
    missingFrom_congr h.toTrees (fun q l a hq => hTable q r l a hq) 2 r 0 hr
  have hva : v * 4096 < maxva := by
    simp only [maxva_eq, trampolineVpn] at *
    omega
  have hDiv : v * 4096 / 4096 = v := by omega
  refine wp_post (mappages_one_spec hHold.typed (hHold.keep hr Role.noConfusion) hva (by omega) ?_) ?_
  · rw [hDiv, hView r v hr, hInvalid]
  rintro ok m' ⟨ρ', h', hGrown, hView', hTables, hCount⟩
  rw [hDiv] at hView' hTables
  rw [hMissing] at hCount
  have hHold' : Holding r p pg m ρ m' ρ' := by
    refine ⟨h', hGrown.kend.trans hHold.kend, hGrown.phystop.trans hHold.phystop, hFree,
      hGrown.role_of_ne_free hHold.held Role.noConfusion, ?_, ?_, ?_⟩
    · grind [hGrown.role]
    · grind [hGrown.page, hHold.page, hGrown.role]
    · rw [hGrown.page p, hHold.content]
      intro l a hEq
      rw [hGrown.role_of_ne_free hHold.held Role.noConfusion] at hEq
      cases hEq
  have hr' : ∀ r', ρ r' = .table r' 2 0 → Function.update ρ p .held r' = .table r' 2 0 :=
    fun r' hr' => hHold.keep hr' Role.noConfusion
  have hLen := hTook.count
  cases ok with
  | false =>
    refine ⟨ρ', hHold', ?_, ?_⟩
    · simp only [Bool.false_eq_true, if_false, setPage_freelist] at hCount
      omega
    · intro r' v' hr'' hv'
      rw [hView' r' v' (hr' r' hr'') hv', if_neg (by simp), hView r' v' hr'']
  | true =>
    obtain ⟨-, hAlign, hlt⟩ := h.toAlloc.pos_of_role (p := p) (by rw [hFree]; exact Role.noConfusion)
    have hEntry : m'.view r v = pa2pte p ||| perm ||| pteV := by
      rw [hView' r v (hr' r hr) (by rw [trampolineVpn] at hv; omega), if_pos ⟨rfl, rfl, rfl⟩]
    have hRoot : ρ' r = .table r 2 0 := hHold'.keep hr Role.noConfusion
    have hLeaf := h'.asLeaf (p := p) (by rw [hHold'.held]; trivial) hRoot
      (v := v) (by rw [trampolineVpn] at hv; omega)
      (by rw [hEntry, has_pteV, getLsbD_entry _ _ (by decide)]; simp)
      (by rw [hEntry]; exact pte2pa_entry hAlign (by omega) hPerm)
    refine ⟨_, hLeaf, hHold'.ext_update rfl rfl rfl (fun _ _ => rfl), ?_, update_self .., ?_, ?_,
      hHold'.content, hFree, ?_⟩
    · intro r' v' hr'' hv'
      rw [hView' r' v' (hr' r' hr'') hv', hView r' v' hr'']
      simp
    · grind [Function.update_apply, hHold'.leaf_of_update]
    · grind
    · simp only [if_true, setPage_freelist] at hCount
      omega

lemma unplaced_spec {m' : Mem} {ρ' : Roles} (hHold : Holding r p pg m ρ m' ρ')
    (hView : ∀ r' v', ρ r' = .table r' 2 0 → v' < 512 ^ 3 → m'.view r' v' = m.view r' v') :
    wp (kfree p) E (fun _ m'' => ∃ ρ'', Unmapped r m ρ m'' ρ'') m' := by
  refine kfree_spec hHold.typed (by rw [hHold.held]; trivial) ?_
  intro m'' hTook h''
  refine ⟨_, h'', ?_, ?_, ?_⟩
  · exact hHold.ext_update trivial hTook.kend.symm hTook.phystop.symm (fun q hq => (hTook.page q hq).symm)
  · intro r' v' hr' hv'
    rw [← hView r' v' hr' hv']
    refine hHold.typed.toTrees.view_congr (hHold.keep hr' Role.noConfusion) ?_ v'
    intro q l a hq
    exact (hTook.page q (ne_of_role hq hHold.held Role.noConfusion)).symm
  · grind [hHold.leaf_of_update]

end

end Xv6K230.Vm
