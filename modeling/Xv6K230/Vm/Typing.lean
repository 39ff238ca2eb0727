import Xv6K230.Vm.PageTable

/-! # The role of every page

A role function gives each page one use: free, held by the running computation, a page-table page at one place of one
tree, a user page at one address of one table, a trapframe or a kernel stack.
-/

namespace Xv6K230.Vm

open Riscv
open Function (update update_apply update_of_ne update_self)

inductive Role where
  | outside -- not a page of the allocator
  | free
  | held -- allocated by an operation that has not placed it yet
  | arg -- an argument page of exec
  | table (root level index : Nat)
  | leaf (root vpn : Nat)
  | frame (owner : Nat)
  | kstack (owner : Nat)
  deriving DecidableEq

abbrev Roles : Type := Nat → Role

def Mem.Managed (m : Mem) (p : Nat) : Prop := p % 4096 = 0 ∧ m.kend ≤ p ∧ p + 4096 ≤ m.phystop

/-- The slot of page `vpn` in the table at `root`, if its page-table page exists. -/
def Mem.slot (m : Mem) (root vpn : Nat) : Option (Nat × Nat) :=
  if (m.pte root (vpn / 512 / 512 % 512)).has pteV then
    if (m.pte (pte2pa (m.pte root (vpn / 512 / 512 % 512))) (vpn / 512 % 512)).has pteV then
      some (pte2pa (m.pte (pte2pa (m.pte root (vpn / 512 / 512 % 512))) (vpn / 512 % 512)), vpn % 512)
    else none
  else none

/-- The table at `root` as a map from virtual page numbers to entries. -/
def Mem.view (m : Mem) (root vpn : Nat) : Pte :=
  match m.slot root vpn with
  | some (q, i) => m.pte q i
  | none => 0#64

structure Alloc (m : Mem) (ρ : Roles) : Prop where
  bounds : 0 < m.kend ∧ m.phystop ≤ trapframeVa
  managed : ∀ p, ρ p ≠ .outside ↔ m.Managed p
  free : ∀ p, ρ p = .free ↔ p ∈ m.freelist
  nodup : m.freelist.Nodup

/-- The page tables' part: entries of inner pages and pages of the next level correspond,
and every user page is where its role says. -/
structure Trees (m : Mem) (ρ : Roles) : Prop where
  level : ∀ p r l a, ρ p = .table r l a → l ≤ 2 ∧ a < 512 ^ (2 - l)
  root : ∀ p r a, ρ p = .table r 2 a → p = r
  down : ∀ p r l a, ρ p = .table r (l + 1) a → ∀ i < 512, (m.pte p i).has pteV →
    ρ (pte2pa (m.pte p i)) = .table r l (a * 512 + i) ∧ (m.pte p i).has (pteR ||| pteW ||| pteX) = false
  up : ∀ p r l a, ρ p = .table r l a → l < 2 → ∃ q, ρ q = .table r (l + 1) (a / 512) ∧
    (m.pte q (a % 512)).has pteV ∧ pte2pa (m.pte q (a % 512)) = p
  leafRoot : ∀ p r v, ρ p = .leaf r v → ρ r = .table r 2 0 ∧ v < 512 ^ 3
  leafUp : ∀ p r v, ρ p = .leaf r v → (m.view r v).has pteV ∧ pte2pa (m.view r v) = p

structure Typed (m : Mem) (ρ : Roles) : Prop extends Alloc m ρ, Trees m ρ

def Role.Loose : Role → Prop
  | .held | .arg | .frame _ | .kstack _ => True
  | _ => False

def Role.IsTable : Role → Prop
  | .table .. => True
  | _ => False

namespace Alloc

variable {m : Mem} {ρ : Roles}

lemma pos_of_role (h : Alloc m ρ) {p : Nat} (hp : ρ p ≠ .outside) :
    p ≠ 0 ∧ p % 4096 = 0 ∧ p < 2 ^ 38 := by
  obtain ⟨hAlign, hLow, hHigh⟩ := (h.managed p).mp hp
  have hb := h.bounds
  simp only [trapframeVa, trampolineVa, maxva, pgsize] at hb
  omega

end Alloc

namespace Trees

variable {m : Mem} {ρ : Roles}

lemma table_unique (h : Trees m ρ) {p p' r l a : Nat} (hp : ρ p = .table r l a)
    (hp' : ρ p' = .table r l a) : p = p' := by
  obtain ⟨hl, -⟩ := h.level p r l a hp
  -- induction from the root downwards: the parent is unique, and its entry names the page
  induction k : 2 - l generalizing p p' l a with
  | zero =>
    obtain rfl : l = 2 := by omega
    rw [h.root p r a hp, h.root p' r a hp']
  | succ k ih =>
    grind [h.up, h.level]

lemma root_of_table (h : Trees m ρ) {p r l a : Nat} (hp : ρ p = .table r l a) :
    ρ r = .table r 2 0 := by
  obtain ⟨hl, ha⟩ := h.level p r l a hp
  induction k : 2 - l generalizing p l a with
  | zero =>
    grind [h.root]
  | succ k ih =>
    grind [h.up, h.level]

lemma slot_of_table (h : Trees m ρ) {q r a i : Nat} (hq : ρ q = .table r 0 a) (hi : i < 512) :
    m.slot r (a * 512 + i) = some (q, i) := by
  obtain ⟨q1, hq1, hv1, hp1⟩ := h.up q r 0 a hq (by omega)
  obtain ⟨q2, hq2, hv2, hp2⟩ := h.up q1 r 1 (a / 512) hq1 (by omega)
  have hlast := (h.level q2 r 2 _ hq2).2
  have hroot := h.root q2 r _ hq2
  subst hroot
  have e0 : (a * 512 + i) % 512 = i := by omega
  have e1 : (a * 512 + i) / 512 % 512 = a % 512 := by omega
  have e2 : (a * 512 + i) / 512 / 512 % 512 = a / 512 % 512 := by omega
  rw [Mem.slot, e0, e1, e2, if_pos hv2, hp2, if_pos hv1, hp1]

lemma slot_some (h : Trees m ρ) {r v q i : Nat} (hr : ρ r = .table r 2 0) (hv : v < 512 ^ 3)
    (hs : m.slot r v = some (q, i)) : ρ q = .table r 0 (v / 512) ∧ i = v % 512 := by
  unfold Mem.slot at hs
  split at hs
  · rename_i hv2
    split at hs
    · rename_i hv1
      cases hs
      obtain ⟨h1, -⟩ := h.down r r 1 0 hr _ (Nat.mod_lt _ (by decide)) hv2
      obtain ⟨h0, -⟩ := h.down _ r 0 _ h1 _ (Nat.mod_lt _ (by decide)) hv1
      refine ⟨?_, rfl⟩
      rw [h0]
      congr 1
      omega
    · cases hs
  · cases hs

lemma view_of_table (h : Trees m ρ) {q r a i : Nat} (hq : ρ q = .table r 0 a) (hi : i < 512) :
    m.view r (a * 512 + i) = m.pte q i := by
  rw [Mem.view, h.slot_of_table hq hi]

lemma leaf_unique (h : Trees m ρ) {p p' r v : Nat} (hp : ρ p = .leaf r v) (hp' : ρ p' = .leaf r v) :
    p = p' := by
  rw [← (h.leafUp p r v hp).2, ← (h.leafUp p' r v hp').2]

lemma slot_congr (h : Trees m ρ) {m' : Mem} {r : Nat} (hr : ρ r = .table r 2 0)
    (hpage : ∀ q l a, ρ q = .table r (l + 1) a → m'.page q = m.page q) (v : Nat) :
    m'.slot r v = m.slot r v := by
  unfold Mem.slot
  rw [pte_congr (hpage r 1 0 hr)]
  split
  · rename_i hv2
    obtain ⟨h1, -⟩ := h.down r r 1 0 hr _ (Nat.mod_lt _ (by decide)) hv2
    rw [pte_congr (hpage _ _ _ h1)]
  · rfl

lemma view_congr (h : Trees m ρ) {m' : Mem} {r : Nat} (hr : ρ r = .table r 2 0)
    (hpage : ∀ q l a, ρ q = .table r l a → m'.page q = m.page q) (v : Nat) :
    m'.view r v = m.view r v := by
  unfold Mem.view
  rw [h.slot_congr hr (fun q l a => hpage q (l + 1) a)]
  cases hs : m.slot r v with
  | none => rfl
  | some s =>
    obtain ⟨q, i⟩ := s
    unfold Mem.slot at hs
    split at hs
    · rename_i hv2
      split at hs
      · rename_i hv1
        cases hs
        obtain ⟨h1, -⟩ := h.down r r 1 0 hr _ (Nat.mod_lt _ (by decide)) hv2
        obtain ⟨h0, -⟩ := h.down _ r 0 _ h1 _ (Nat.mod_lt _ (by decide)) hv1
        exact pte_congr (hpage _ _ _ h0) _
      · cases hs
    · cases hs

/-- An entry of the view lies in the lowest page at its place, or there is no such page. -/
lemma view_cases (h : Trees m ρ) {r v : Nat} (hr : ρ r = .table r 2 0) (hv : v < 512 ^ 3) :
    (∃ q, ρ q = .table r 0 (v / 512) ∧ m.slot r v = some (q, v % 512) ∧ m.view r v = m.pte q (v % 512)) ∨
    ((∀ q, ρ q ≠ .table r 0 (v / 512)) ∧ m.slot r v = none ∧ m.view r v = 0#64) := by
  cases hs : m.slot r v with
  | some s =>
    obtain ⟨q, i⟩ := s
    obtain ⟨hq, rfl⟩ := h.slot_some hr hv hs
    refine .inl ⟨q, hq, rfl, ?_⟩
    rw [Mem.view, hs]
  | none =>
    refine .inr ⟨?_, rfl, ?_⟩
    · intro q hq
      have hSome := h.slot_of_table hq (Nat.mod_lt v (by decide))
      rw [Nat.div_add_mod' v 512, hs] at hSome
      cases hSome
    · rw [Mem.view, hs]

lemma congr (h : Trees m ρ) {m' : Mem} {ρ' : Roles} (hTable : ∀ q c, c.IsTable → (ρ' q = c ↔ ρ q = c))
    (hLeaf : ∀ q r v, ρ' q = .leaf r v → ρ q = .leaf r v)
    (hPage : ∀ q r l a, ρ q = .table r l a → m'.page q = m.page q) : Trees m' ρ' := by
  have hT : ∀ q r l a, ρ' q = .table r l a ↔ ρ q = .table r l a := fun q r l a => hTable q _ trivial
  refine ⟨?_, ?_, ?_, ?_, ?_, ?_⟩
  · intro q r l a hq
    exact h.level q r l a ((hT ..).mp hq)
  · intro q r a hq
    exact h.root q r a ((hT ..).mp hq)
  · intro q r l a hq i hi hv
    rw [hT] at hq
    rw [pte_congr (hPage q r _ a hq)] at hv ⊢
    rw [hT]
    exact h.down q r l a hq i hi hv
  · intro q r l a hq hl
    obtain ⟨q', hq', hv, hpa⟩ := h.up q r l a ((hT ..).mp hq) hl
    refine ⟨q', (hT ..).mpr hq', ?_⟩
    rw [pte_congr (hPage q' r _ _ hq')]
    exact ⟨hv, hpa⟩
  · intro q r v hq
    obtain ⟨hr, hv⟩ := h.leafRoot q r v (hLeaf q r v hq)
    exact ⟨(hT ..).mpr hr, hv⟩
  · intro q r v hq
    obtain ⟨hr, -⟩ := h.leafRoot q r v (hLeaf q r v hq)
    rw [h.view_congr hr (fun q l a => hPage q r l a) v]
    exact h.leafUp q r v (hLeaf q r v hq)

end Trees

/-! ## One change at a time -/

section

variable {ρ : Roles} {p q : Nat} {c c' : Role}

lemma update_eq_of_ne (h : c ≠ c') : update ρ p c q = c' ↔ q ≠ p ∧ ρ q = c' := by
  by_cases hqp : q = p
  · subst hqp
    simp [h]
  · simp [hqp]

lemma ne_of_role (hp : ρ p = c) (hq : ρ q = c') (h : c ≠ c') : p ≠ q := by
  rintro rfl
  exact h (hp.symm.trans hq)

lemma Role.Loose.not_table (h : c.Loose) : ¬ c.IsTable := by
  cases c <;> simp_all [Role.Loose, Role.IsTable]

lemma Role.Loose.ne_leaf (h : c.Loose) (r v : Nat) : c ≠ .leaf r v := by
  rintro rfl
  exact h

lemma Role.Loose.ne_free (h : c.Loose) : c ≠ .free := by
  rintro rfl
  exact h

lemma Role.Loose.ne_outside (h : c.Loose) : c ≠ .outside := by
  rintro rfl
  exact h

end

namespace Alloc

variable {m : Mem} {ρ : Roles} {p : Nat} {c : Role}

lemma pop (h : Alloc m ρ) {rest : List Nat} (hl : m.freelist = p :: rest) (hFree : c ≠ .free)
    (hOut : c ≠ .outside) : Alloc { m with freelist := rest } (update ρ p c) := by
  have hnd := h.nodup
  rw [hl, List.nodup_cons] at hnd
  have hp : ρ p = .free := (h.free p).mpr (by rw [hl]; exact List.mem_cons_self)
  refine ⟨h.bounds, ?_, ?_, hnd.2⟩
  · intro q
    by_cases hqp : q = p
    · subst hqp
      have hm := (h.managed q).mp (by rw [hp]; exact Role.noConfusion)
      rw [update_self]
      exact ⟨fun _ => hm, fun _ => hOut⟩
    · rw [update_of_ne hqp]
      exact h.managed q
  · grind [h.free]

lemma push (h : Alloc m ρ) (hFree : ρ p ≠ .free) (hOut : ρ p ≠ .outside) :
    Alloc { m with freelist := p :: m.freelist } (update ρ p .free) := by
  refine ⟨h.bounds, ?_, ?_, ?_⟩
  · intro q
    by_cases hqp : q = p
    · subst hqp
      have hm := (h.managed q).mp hOut
      rw [update_self]
      exact ⟨fun _ => hm, fun _ => Role.noConfusion⟩
    · rw [update_of_ne hqp]
      exact h.managed q
  · grind [h.free]
  · refine List.nodup_cons.mpr ⟨?_, h.nodup⟩
    rw [← h.free]
    exact hFree

lemma relabel (h : Alloc m ρ) (hp : ρ p ≠ .free) (hOut : ρ p ≠ .outside) (hFree : c ≠ .free)
    (hOut' : c ≠ .outside) : Alloc m (update ρ p c) := by
  refine ⟨h.bounds, ?_, ?_, h.nodup⟩
  · grind [h.managed]
  · grind [h.free]

end Alloc

namespace Typed

variable {m : Mem} {ρ : Roles} {p : Nat} {c : Role}

lemma setPage (h : Typed m ρ) (pg : Page) (hp : ¬ (ρ p).IsTable) : Typed (m.setPage p pg) ρ := by
  refine ⟨⟨h.bounds, h.managed, h.free, h.nodup⟩, h.toTrees.congr (fun _ _ _ => Iff.rfl)
    (fun _ _ _ hq => hq) ?_⟩
  intro q r l a hq
  refine setPage_page_of_ne m pg ?_
  rintro rfl
  exact hp (by rw [hq]; trivial)

lemma trees_update (h : Typed m ρ) (hp : ¬ (ρ p).IsTable) (hTable : ¬ c.IsTable)
    (hLeaf : ∀ r v, c ≠ .leaf r v) : Trees m (update ρ p c) := by
  refine h.toTrees.congr ?_ ?_ (fun _ _ _ _ _ => rfl)
  · grind
  · intro q r v hq
    exact ((update_eq_of_ne (hLeaf r v)).mp hq).2

lemma relabel (h : Typed m ρ) (hp : ¬ (ρ p).IsTable) (hFree : ρ p ≠ .free) (hOut : ρ p ≠ .outside)
    (hc : c.Loose) : Typed m (update ρ p c) :=
  ⟨h.toAlloc.relabel hFree hOut hc.ne_free hc.ne_outside,
    h.trees_update hp hc.not_table hc.ne_leaf⟩

lemma pop (h : Typed m ρ) {rest : List Nat} (hl : m.freelist = p :: rest) (hc : c.Loose) :
    Typed { m with freelist := rest } (update ρ p c) := by
  have hp : ρ p = .free := (h.free p).mpr (by rw [hl]; exact List.mem_cons_self)
  have hT : ¬ (ρ p).IsTable := by
    rw [hp]
    exact id
  refine ⟨h.toAlloc.pop hl hc.ne_free hc.ne_outside, ?_⟩
  exact (h.trees_update hT hc.not_table hc.ne_leaf).congr (fun _ _ _ => Iff.rfl) (fun _ _ _ hq => hq)
    (fun _ _ _ _ _ => rfl)

lemma push (h : Typed m ρ) (hp : (ρ p).Loose) :
    Typed { m with freelist := p :: m.freelist } (update ρ p .free) := by
  refine ⟨h.toAlloc.push hp.ne_free hp.ne_outside, ?_⟩
  exact (h.trees_update hp.not_table id (fun _ _ => Role.noConfusion)).congr (fun _ _ _ => Iff.rfl)
    (fun _ _ _ hq => hq) (fun _ _ _ _ _ => rfl)

lemma newRoot (h : Typed m ρ) (hp : (ρ p).Loose) (hz : ∀ i, m.pte p i = 0#64) :
    Typed m (update ρ p (.table p 2 0)) := by
  have hOther : ∀ q c, ρ q = c → ¬ c.Loose → update ρ p (.table p 2 0) q = c := by
    intro q c hq hc
    rw [update_of_ne, hq]
    rintro rfl
    exact hc (hq ▸ hp)
  have hCases : ∀ q r l a, update ρ p (.table p 2 0) q = .table r l a →
      (q = p ∧ r = p ∧ l = 2 ∧ a = 0) ∨ ρ q = .table r l a := by
    intro q r l a hq
    by_cases hqp : q = p
    · grind
    · rw [update_of_ne hqp] at hq
      exact .inr hq
  refine ⟨h.toAlloc.relabel hp.ne_free hp.ne_outside Role.noConfusion Role.noConfusion, ?_, ?_, ?_, ?_, ?_, ?_⟩
  · intro q r l a hq
    obtain ⟨-, -, rfl, rfl⟩ | hq := hCases q r l a hq
    · simp
    · exact h.level q r l a hq
  · grind [h.root]
  · intro q r l a hq i hi hv
    obtain ⟨rfl, -, -, -⟩ | hq := hCases q r (l + 1) a hq
    · rw [hz] at hv
      exact absurd hv (by decide)
    · obtain ⟨hd, hrwx⟩ := h.down q r l a hq i hi hv
      exact ⟨hOther _ _ hd id, hrwx⟩
  · intro q r l a hq hl
    obtain ⟨-, -, rfl, -⟩ | hq := hCases q r l a hq
    · omega
    · obtain ⟨q', hq', hv⟩ := h.up q r l a hq hl
      exact ⟨q', hOther _ _ hq' id, hv⟩
  · intro q r v hq
    obtain ⟨hr, hv⟩ := h.leafRoot q r v ((update_eq_of_ne Role.noConfusion).mp hq).2
    exact ⟨hOther _ _ hr id, hv⟩
  · intro q r v hq
    exact h.leafUp q r v ((update_eq_of_ne Role.noConfusion).mp hq).2

lemma view_mono {m' : Mem} (h : ∀ q i, (m.pte q i).has pteV → m'.pte q i = m.pte q i) {r v : Nat}
    (hv : (m.view r v).has pteV) : m'.view r v = m.view r v := by
  unfold Mem.view Mem.slot at *
  split at hv
  · grind
  · exact absurd hv (by decide)

lemma newTable (h : Typed m ρ) {q r l a i : Nat} (hq : ρ q = .table r (l + 1) a) (hi : i < 512)
    (hv : (m.pte q i).has pteV = false) (hp : (ρ p).Loose) (hz : ∀ j, m.pte p j = 0#64) :
    Typed (m.setPte q i (pa2pte p ||| pteV)) (update ρ p (.table r l (a * 512 + i))) := by
  have hqp : q ≠ p := by
    rintro rfl
    exact hp.not_table (by rw [hq]; trivial)
  obtain ⟨-, hAlign, hlt⟩ := h.toAlloc.pos_of_role hp.ne_outside
  have hEntry : pa2pte p ||| pteV = pa2pte p ||| 0#64 ||| pteV := by simp
  have hpa : pte2pa (pa2pte p ||| pteV) = p := by
    rw [hEntry]
    exact pte2pa_entry hAlign (by omega) (by decide)
  have hV : (pa2pte p ||| pteV).has pteV = true := by
    rw [hEntry, has_pteV, getLsbD_entry _ _ (by decide)]
    rfl
  have hRwx : (pa2pte p ||| pteV).has (pteR ||| pteW ||| pteX) = false := by
    grind [has_rwx, getLsbD_entry]
  obtain ⟨hl, ha⟩ := h.level q r (l + 1) a hq
  -- entries that were valid are still there
  have hKeep : ∀ q' i', (m.pte q' i').has pteV → (m.setPte q i (pa2pte p ||| pteV)).pte q' i' = m.pte q' i' := by
    grind [pte_setPte_of_index_ne, pte_setPte_of_page_ne]
  have hOther : ∀ q c, ρ q = c → ¬ c.Loose → update ρ p (.table r l (a * 512 + i)) q = c := by
    intro q c hq hc
    rw [update_of_ne, hq]
    rintro rfl
    exact hc (hq ▸ hp)
  have hCases : ∀ q' r' l' a', update ρ p (.table r l (a * 512 + i)) q' = .table r' l' a' →
      (q' = p ∧ r' = r ∧ l' = l ∧ a' = a * 512 + i) ∨ ρ q' = .table r' l' a' := by
    intro q' r' l' a' hq'
    by_cases hEq : q' = p
    · grind
    · rw [update_of_ne hEq] at hq'
      exact .inr hq'
  refine ⟨⟨h.bounds, (h.toAlloc.relabel hp.ne_free hp.ne_outside Role.noConfusion Role.noConfusion).managed,
    (h.toAlloc.relabel hp.ne_free hp.ne_outside Role.noConfusion Role.noConfusion).free, h.nodup⟩,
    ?_, ?_, ?_, ?_, ?_, ?_⟩
  · intro q' r' l' a' hq'
    obtain ⟨-, -, rfl, rfl⟩ | hq' := hCases q' r' l' a' hq'
    · refine ⟨by omega, ?_⟩
      have hl01 : l' = 0 ∨ l' = 1 := by omega
      obtain rfl | rfl := hl01 <;> norm_num at ha ⊢ <;> omega
    · exact h.level q' r' l' a' hq'
  · grind [h.root]
  · intro q' r' l' a' hq' j hj hvj
    obtain ⟨rfl, -, -, -⟩ | hOld := hCases q' r' (l' + 1) a' hq'
    · rw [pte_setPte_of_page_ne m i j _ (Ne.symm hqp), hz] at hvj
      exact absurd hvj (by decide)
    · by_cases hEq : q' = q ∧ j = i
      · grind [pte_setPte_same, update_apply]
      · have hSame : (m.setPte q i (pa2pte p ||| pteV)).pte q' j = m.pte q' j := by
          grind [pte_setPte_of_index_ne, pte_setPte_of_page_ne]
        rw [hSame] at hvj ⊢
        obtain ⟨hd, hrwx⟩ := h.down q' r' l' a' hOld j hj hvj
        exact ⟨hOther _ _ hd id, hrwx⟩
  · intro q' r' l' a' hq' hl'
    obtain ⟨rfl, rfl, rfl, rfl⟩ | hq' := hCases q' r' l' a' hq'
    · refine ⟨q, ?_, ?_⟩
      · rw [hOther _ _ hq id]
        congr 1
        omega
      · rw [show (a * 512 + i) % 512 = i by omega, pte_setPte_same m _ hi]
        exact ⟨hV, hpa⟩
    · obtain ⟨q'', hq'', hvq, hpaq⟩ := h.up q' r' l' a' hq' hl'
      refine ⟨q'', hOther _ _ hq'' id, ?_⟩
      rw [hKeep _ _ hvq]
      exact ⟨hvq, hpaq⟩
  · intro q' r' v hq'
    obtain ⟨hr, hvr⟩ := h.leafRoot q' r' v ((update_eq_of_ne Role.noConfusion).mp hq').2
    exact ⟨hOther _ _ hr id, hvr⟩
  · intro q' r' v hq'
    obtain ⟨hvv, hpav⟩ := h.leafUp q' r' v ((update_eq_of_ne Role.noConfusion).mp hq').2
    rw [view_mono hKeep hvv]
    exact ⟨hvv, hpav⟩

lemma setEntry (h : Typed m ρ) {q r a i : Nat} {e : Pte} (hq : ρ q = .table r 0 a)
    (hLeaf : ∀ p, ρ p = .leaf r (a * 512 + i) → e.has pteV ∧ pte2pa e = p) (hi : i < 512) :
    Typed (m.setPte q i e) ρ ∧
    (∀ r' v, ρ r' = .table r' 2 0 → v < 512 ^ 3 →
      (m.setPte q i e).view r' v = if r' = r ∧ v = a * 512 + i then e else m.view r' v) ∧
    (∀ r' v, ρ r' = .table r' 2 0 → (m.setPte q i e).slot r' v = m.slot r' v) := by
  have hInner : ∀ q' r' l' a', ρ q' = .table r' (l' + 1) a' → (m.setPte q i e).page q' = m.page q' := by
    grind [setPte_page_of_ne]
  have hSlot : ∀ r' v, ρ r' = .table r' 2 0 → (m.setPte q i e).slot r' v = m.slot r' v :=
    fun r' v hr => h.toTrees.slot_congr hr (fun q' l' a' => hInner q' r' l' a') v
  have hView : ∀ r' v, ρ r' = .table r' 2 0 → v < 512 ^ 3 →
      (m.setPte q i e).view r' v = if r' = r ∧ v = a * 512 + i then e else m.view r' v := by
    intro r' v hr hv
    rw [Mem.view, hSlot r' v hr]
    obtain ⟨q', hq', hs, hw⟩ | ⟨hNone, hs, hw⟩ := h.toTrees.view_cases hr hv
    · rw [hs, hw]
      by_cases hqq : q' = q
      · grind [pte_setPte_same, pte_setPte_of_index_ne]
      · rw [if_neg]
        · exact pte_setPte_of_page_ne m i _ e hqq
        · rintro ⟨rfl, rfl⟩
          rw [show (a * 512 + i) / 512 = a by omega] at hq'
          exact hqq (h.toTrees.table_unique hq' hq)
    · grind
  refine ⟨⟨⟨h.bounds, h.managed, h.free, h.nodup⟩, h.level, h.root, ?_, ?_, h.leafRoot, ?_⟩, hView, hSlot⟩
  · intro q' r' l' a' hq' j hj hv
    rw [pte_congr (hInner q' r' l' a' hq')] at hv ⊢
    exact h.down q' r' l' a' hq' j hj hv
  · grind [h.up, pte_congr]
  · grind [h.leafRoot, h.leafUp]

lemma asLeaf (h : Typed m ρ) {r v : Nat} (hp : (ρ p).Loose) (hr : ρ r = .table r 2 0) (hv : v < 512 ^ 3)
    (hValid : (m.view r v).has pteV) (hpa : pte2pa (m.view r v) = p) :
    Typed m (update ρ p (.leaf r v)) := by
  have hTable : ∀ q r' l a, update ρ p (.leaf r v) q = .table r' l a ↔ ρ q = .table r' l a := by
    intro q r' l a
    rw [update_eq_of_ne Role.noConfusion]
    refine ⟨fun hq => hq.2, fun hq => ⟨?_, hq⟩⟩
    rintro rfl
    exact hp.not_table (by rw [hq]; trivial)
  refine ⟨h.toAlloc.relabel hp.ne_free hp.ne_outside Role.noConfusion Role.noConfusion, ?_, ?_, ?_, ?_, ?_, ?_⟩
  · intro q r' l a hq
    exact h.level q r' l a ((hTable ..).mp hq)
  · intro q r' a hq
    exact h.root q r' a ((hTable ..).mp hq)
  · grind [h.down]
  · grind [h.up]
  · intro q r' v' hq
    rw [hTable]
    by_cases hqp : q = p
    · subst hqp
      rw [update_self] at hq
      cases hq
      exact ⟨hr, hv⟩
    · rw [update_of_ne hqp] at hq
      exact h.leafRoot q r' v' hq
  · grind [h.leafUp]

end Typed

end Xv6K230.Vm
