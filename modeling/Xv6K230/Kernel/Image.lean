import Xv6K230.Vm.Image
import Xv6K230.Fs.Stops
import Xv6K230.Kernel.Exec

/-! # The image that exec builds

A space under construction has all its pages mapped for the user, so `loadseg` finds the
page of every byte it loads and the arguments go to the stack page without a fault.
-/

namespace Xv6K230

open Vm Riscv Prog

structure Building (r tf tr sz : Nat) (m : Mem) (ρ : Roles) : Prop where
  typed : Typed m ρ
  table : UserTable m ρ r tf tr (npages sz)
  size : sz ≤ trapframeVa
  full : ∀ v < npages sz, (m.view r v).has pteV ∧ (m.view r v).has pteU

lemma userPerm_flags2perm (flags : Nat) : userPerm (flags2perm flags) &&& ppnMask = 0#64 := by
  unfold flags2perm
  split <;> split <;> decide

lemma has_of_userPerm (p : Nat) (xperm : Pte) :
    (pa2pte p ||| userPerm xperm ||| pteV).has pteV ∧ (pa2pte p ||| userPerm xperm ||| pteV).has pteU := by
  rw [has_pteV, has_pteU, getLsbD_entry _ _ (by decide), getLsbD_entry _ _ (by decide)]
  simp [userPerm, pteU]

lemma field_lt (l : Text) (off k : Nat) : field l off k < 256 ^ k :=
  lt_of_lt_of_le (Bytes.numLE_lt _) (Nat.pow_le_pow_right (by decide) (List.length_take_le ..))

lemma npages_mono {sz sz' : Nat} (h : sz ≤ sz') : npages sz ≤ npages sz' := by
  simp only [npages]
  omega

lemma size_of_pages {sz : Nat} (h : npages sz ≤ trapframeVpn) : sz ≤ trapframeVa := by
  rw [trapframeVpn, npages] at h
  rw [trapframeVa_eq]
  omega

section

variable {E : Stop → Prop} {m : Mem} {ρ : Roles} {r tf tr sz : Nat}

lemma Building.of_regrown (h : Building r tf tr sz m ρ) {sz' : Nat} {m' : Mem} {ρ' : Roles} {xperm : Pte}
    (hGrown : Regrown r tf tr (npages sz) m ρ (npages sz') m' ρ')
    (hFresh : FreshRange m' ρ' r (npages sz) (npages sz') (userPerm xperm)) : Building r tf tr sz' m' ρ' := by
  refine ⟨hGrown.typed, hGrown.table, size_of_pages hGrown.table.bound, ?_⟩
  intro v hv
  by_cases hOld : v < npages sz
  · rw [hGrown.view v (vpn_lt (lt_of_lt_of_le hv hGrown.table.bound)) (.inl hOld)]
    exact h.full v hOld
  · obtain ⟨p, -, hView, -⟩ := hFresh v (by omega) hv
    rw [hView]
    exact has_of_userPerm p xperm

lemma Building.uvmalloc (h : Building r tf tr sz m ρ) {newsz : Nat} {xperm : Pte}
    (hPerm : userPerm xperm &&& ppnMask = 0#64) :
    wp (Vm.uvmalloc r sz newsz xperm) E (fun res m' => ∃ ρ', Touches r m ρ m' ρ' ∧
      (res = 0 ∧ Building r tf tr sz m' ρ' ∨ res = max sz newsz ∧ Building r tf tr res m' ρ')) m := by
  refine wp_post (uvmalloc_spec hPerm h.typed h.table h.size (.inr fun v hv => (h.full v hv).1)) ?_
  rintro res m' (⟨hZero, ρ', hGrown⟩ | ⟨hRes, ρ', hGrown, hFresh⟩)
  · have hNone : FreshRange m' ρ' r (npages sz) (npages sz) (userPerm xperm) := by
      intro v hLow hHigh
      omega
    exact ⟨ρ', hGrown.touches, .inl ⟨hZero, h.of_regrown hGrown hNone⟩⟩
  · exact ⟨ρ', hGrown.touches, .inr ⟨hRes, h.of_regrown hGrown hFresh⟩⟩

lemma Building.store (h : Building r tf tr sz m ρ) {p v : Nat} (hp : ρ p = .leaf r v) (pg : Page) :
    Building r tf tr sz (m.setPage p pg) ρ ∧ Touches r m ρ (m.setPage p pg) ρ := by
  have hServed := Served.of_store h.typed h.table hp pg
  refine ⟨⟨h.typed.setPage pg (by rw [hp]; exact id), hServed.table, h.size, fun v hv => ?_⟩, hServed.touches⟩
  have hlt := vpn_lt (lt_of_lt_of_le hv h.table.bound)
  rw [hServed.view v hlt (h.full v hv).1]
  exact h.full v hv

lemma Building.userAddr (h : Building r tf tr sz m ρ) {va : Nat} (hva : va < sz) :
    m.userAddr r va ≠ 0 ∧ ρ (m.userAddr r va) = .leaf r (va / 4096) := by
  have hMax : va < maxva := by
    have hsz := h.size
    rw [trapframeVa_eq] at hsz
    rw [maxva_eq]
    omega
  obtain ⟨hV, hU⟩ := h.full (va / 4096) (by rw [npages]; omega)
  have hne := (userAddr_of_user h.typed h.table hMax hV hU).2
  exact ⟨hne, user_page h.table hne⟩

lemma loadsegLoop_spec (hE : ∀ e : Stop, ¬ e.OfVm → E e) {va : Nat} {ip : Fs.Ip} {offset len : Nat}
    (hEnd : va + len ≤ sz) : ∀ (fuel i : Nat) {k : Kernel}, Building r tf tr sz k.mem ρ →
    wp (loadsegLoop r va ip offset len fuel i) E (fun _ k' => ∃ m' fs', k' = (k.setMem m').setFs fs' ∧
      Touches r k.mem ρ m' ρ ∧ Building r tf tr sz m' ρ) k := by
  intro fuel
  induction fuel with
  | zero =>
    intro i k h
    rw [loadsegLoop, wp_pure]
    exact ⟨k.mem, k.fs, rfl, Touches.refl r k.mem ρ, h⟩
  | succ fuel ih =>
    intro i k h
    simp only [loadsegLoop]
    split
    · rename_i hi
      have hsz := h.size
      rw [trapframeVa_eq] at hsz
      have hAddr : uint64 (va + i) = va + i := Nat.mod_eq_of_lt (by omega)
      have hBelow : va + i < sz := by omega
      obtain ⟨hne, hLeaf⟩ := h.userAddr hBelow
      simp only [wp_bind, wp_onMem, wp_walkaddr, hAddr]
      rw [if_neg hne]
      simp only [wp_bind, wp_onFs]
      refine wp_mono ((Fs.inner_readiKernel ip _ _).noVm _) hE ?_
      rintro ⟨n, l⟩ fs1 -
      simp only [wp_onMem, storeBytes, wp_update]
      obtain ⟨h1, hTouch1⟩ := h.store hLeaf ((k.mem.page (k.mem.userAddr r (va + i))).write ((va + i) % pgsize) l)
      split
      · rw [wp_pure]
        exact ⟨_, fs1, rfl, hTouch1, h1⟩
      · refine wp_post (ih _ h1) ?_
        rintro - k' ⟨m', fs', rfl, hTouch', h'⟩
        exact ⟨m', fs', rfl, hTouch1.trans hTouch', h'⟩
    · rw [wp_pure]
      exact ⟨k.mem, k.fs, rfl, Touches.refl r k.mem ρ, h⟩

lemma loadSegments_spec (hE : ∀ e : Stop, ¬ e.OfVm → E e) {ip : Fs.Ip} : ∀ (n off sz : Nat) {k : Kernel} {ρ : Roles},
    Building r tf tr sz k.mem ρ →
    wp (loadSegments r ip n off sz) E (fun res k' => ∃ m' fs' ρ', k' = (k.setMem m').setFs fs' ∧
      Touches r k.mem ρ m' ρ' ∧ Building r tf tr res.2 m' ρ') k := by
  intro n
  induction n with
  | zero =>
    intro off sz k ρ h
    rw [loadSegments, wp_pure]
    exact ⟨k.mem, k.fs, ρ, rfl, Touches.refl r k.mem ρ, h⟩
  | succ n ih =>
    intro off sz k ρ h
    simp only [loadSegments, wp_bind, wp_onFs]
    refine wp_mono ((Fs.inner_readiKernel ip _ _).noVm _) hE ?_
    rintro ⟨got, ph⟩ fs1 -
    have hSame : ∃ m' fs' ρ', k.setFs fs1 = (k.setMem m').setFs fs' ∧ Touches r k.mem ρ m' ρ' ∧
        Building r tf tr sz m' ρ' := ⟨k.mem, fs1, ρ, rfl, Touches.refl r k.mem ρ, h⟩
    dsimp only
    split
    · rw [wp_pure]
      exact hSame
    split
    · exact ih _ _ (k := k.setFs fs1) h
    split
    · rw [wp_pure]
      exact hSame
    split
    · rw [wp_pure]
      exact hSame
    · rename_i hFile hWrap
      simp only [wp_bind, wp_onMem]
      refine wp_post (h.uvmalloc (userPerm_flags2perm _)) ?_
      rintro sz1 m1 ⟨ρ1, hTouch1, hGrown⟩
      by_cases hZero : sz1 = 0
      · rw [if_pos hZero, wp_pure]
        obtain ⟨-, h1⟩ | ⟨hRes, h1⟩ := hGrown
        · exact ⟨m1, fs1, ρ1, rfl, hTouch1, h1⟩
        · rw [show sz1 = sz by omega] at h1
          exact ⟨m1, fs1, ρ1, rfl, hTouch1, h1⟩
      · obtain ⟨hEq, -⟩ | ⟨hRes, h1⟩ := hGrown
        · exact absurd hEq hZero
        rw [if_neg hZero]
        simp only [wp_bind, loadseg]
        have hEnd : field ph 16 8 + field ph 32 8 % 2 ^ 32 ≤ sz1 := by
          have hVaddr := field_lt ph 16 8
          have hMem := field_lt ph 40 8
          have hMod := Nat.mod_le (field ph 32 8) (2 ^ 32)
          simp only [uint64] at hWrap hRes
          omega
        refine wp_post (loadsegLoop_spec hE hEnd _ _ (k := (k.setFs fs1).setMem m1) h1) ?_
        rintro ok k2 ⟨m2, fs2, rfl, hTouch2, h2⟩
        cases ok with
        | true =>
          rw [if_pos rfl]
          refine wp_post (ih _ _ (k := _) h2) ?_
          rintro res k3 ⟨m3, fs3, ρ3, rfl, hTouch3, h3⟩
          exact ⟨m3, fs3, ρ3, rfl, (hTouch1.trans hTouch2).trans hTouch3, h3⟩
        | false =>
          simp only [Bool.false_eq_true, if_false, wp_pure]
          exact ⟨m2, fs2, ρ1, rfl, hTouch1.trans hTouch2, h2⟩

end

/-! ## The stack -/

section

variable {E : Stop → Prop} {ρ : Roles} {r tf tr b : Nat}

lemma sub64_of_le {a c : Nat} (h : c ≤ a) (ha : a < 2 ^ 64) : sub64 a c = a - c := by
  have hc : c % 2 ^ 64 = c := Nat.mod_eq_of_lt (by omega)
  rw [sub64, hc, show a + (2 ^ 64 - c) = a - c + 2 ^ 64 by omega, Nat.add_mod_right]
  exact Nat.mod_eq_of_lt (by omega)

lemma userRange_page {m : Mem} {va len : Nat} (hV : (m.view r b).has pteV) (hU : (m.view r b).has pteU)
    (hLow : b * 4096 ≤ va) (hHigh : va + len ≤ (b + 1) * 4096) : UserRange m r va len := by
  intro v hv hlt
  obtain rfl : v = b := by omega
  exact ⟨hV, hU⟩

lemma pushArgs_spec (p : Proc) {c : Nat} (hb : b < trapframeVpn) : ∀ (argv : List Text) (argc sp : Nat)
    (acc : List Nat) {m : Mem}, Typed m ρ → UserTable m ρ r tf tr c → (m.view r b).has pteV →
    (m.view r b).has pteU → 1 ≤ b → (∀ s ∈ argv, s.length < 4096) → argc ≤ maxarg →
    b * 4096 ≤ sp → sp ≤ (b + 1) * 4096 →
    wp (pushArgs p r (b * 4096) argv argc sp acc) E (fun res m' => Served r tf tr c m ρ m' ρ ∧
      ∀ l, res = some l → l.1.length = acc.length + argv.length ∧ argc + argv.length ≤ maxarg ∧
        b * 4096 ≤ l.2 ∧ l.2 ≤ (b + 1) * 4096) m := by
  intro argv
  induction argv with
  | nil =>
    intro argc sp acc m ht h _ _ _ _ hArgc hLow hHigh
    rw [pushArgs, wp_pure]
    refine ⟨Served.refl ht h, ?_⟩
    rintro l ⟨⟩
    exact ⟨rfl, hArgc, hLow, hHigh⟩
  | cons s argv ih =>
    intro argc sp acc m ht h hV hU hPos hLen hArgc hLow hHigh
    have hNone : Served r tf tr c m ρ m ρ ∧ ∀ l, (none : Option (List Nat × Nat)) = some l →
        l.1.length = acc.length + (s :: argv).length ∧ argc + (s :: argv).length ≤ maxarg ∧
        b * 4096 ≤ l.2 ∧ l.2 ≤ (b + 1) * 4096 := by
      refine ⟨Served.refl ht h, ?_⟩
      rintro l ⟨⟩
    have hs := hLen s List.mem_cons_self
    rw [trapframeVpn] at hb
    simp only [pushArgs, sub64_of_le (show s.length + 1 ≤ sp by omega) (show sp < 2 ^ 64 by omega)]
    split
    · rw [wp_pure]
      exact hNone
    split
    · rw [wp_pure]
      exact hNone
    · rename_i hMax hBase
      have hTop : sp - (s.length + 1) - (sp - (s.length + 1)) % 16 + (s ++ [0]).length ≤ (b + 1) * 4096 := by
        rw [List.length_append, List.length_singleton]
        omega
      rw [wp_bind, copyout]
      refine wp_post (copyoutLoop_mapped_spec _ _ _ ht h (userRange_page hV hU (by omega) hTop) ?_) ?_
      · rw [maxva_eq]
        omega
      rintro ok m1 ⟨hServed, hView⟩
      have hbv : b < 512 ^ 3 := by omega
      cases ok with
      | false =>
        simp only [Bool.false_eq_true, if_false, wp_pure]
        refine ⟨hServed, ?_⟩
        rintro l ⟨⟩
      | true =>
        rw [if_pos rfl]
        refine wp_post (ih (argc + 1) _ _ hServed.typed hServed.table (by rw [hView b hbv]; exact hV)
          (by rw [hView b hbv]; exact hU) hPos (fun t ht => hLen t (List.mem_cons_of_mem _ ht)) (by omega)
          (by omega) (by omega)) ?_
        rintro res m2 ⟨hServed2, hRes⟩
        refine ⟨hServed.trans hServed2, fun l hl => ?_⟩
        obtain ⟨hCount, hArgs, hRange⟩ := hRes l hl
        rw [List.length_cons] at hCount ⊢
        exact ⟨by omega, by omega, hRange⟩

lemma length_ustack (l : List Nat) : (l.flatMap (Bytes.bytesLE 8)).length = 8 * l.length := by
  induction l with
  | nil => rfl
  | cons a l ih =>
    grind [List.length_append, Bytes.length_bytesLE, List.length_cons]

/-- The stack fits below the trapframe, and on every exit the size that `buildStack`
reports covers the pages it mapped. -/
lemma buildStack_spec (p : Proc) {sz : Nat} {argv : List Text} {m : Mem} (h : Building r tf tr sz m ρ)
    (hLen : ∀ s ∈ argv, s.length < 4096) :
    wp (buildStack p r sz argv) E (fun res m' => ∃ ρ', Typed m' ρ' ∧ Touches r m ρ m' ρ' ∧
      res.1 ≤ trapframeVa ∧ UserTable m' ρ' r tf tr (npages res.1)) m := by
  have hsz := h.size
  have hPages : npages (npages sz * 4096) = npages sz := npages_mul _
  have hBound := h.table.bound
  have h0 : Building r tf tr (npages sz * 4096) m ρ := by
    refine ⟨h.typed, ?_, size_of_pages ?_, ?_⟩ <;> rw [hPages]
    · exact h.table
    · exact hBound
    · exact h.full
  have hNew : uint64 (npages sz * 4096 + (userstack + 1) * pgsize) = (npages sz + 2) * 4096 := by
    rw [trapframeVpn] at hBound
    simp only [uint64, userstack, pgsize]
    omega
  unfold buildStack
  simp only [pgroundup_npages hsz, wp_bind, hNew]
  refine wp_post (h0.uvmalloc (by decide)) ?_
  rintro sz1 m1 ⟨ρ1, hTouch1, hGrown⟩
  by_cases hZero : sz1 = 0
  · rw [if_pos hZero, wp_pure]
    obtain ⟨-, h1⟩ | ⟨hRes, -⟩ := hGrown
    · exact ⟨ρ1, h1.typed, hTouch1, h1.size, h1.table⟩
    · omega
  obtain ⟨hEq, -⟩ | ⟨hRes, h1⟩ := hGrown
  · exact absurd hEq hZero
  have hEq : sz1 = (npages sz + 2) * 4096 := by omega
  subst hEq
  have hBound1 := h1.table.bound
  rw [npages_mul] at hBound1
  have hFull := h1.full
  rw [npages_mul] at hFull
  have hGuard : sub64 ((npages sz + 2) * 4096) ((userstack + 1) * pgsize) = npages sz * 4096 := by
    grind [sub64_of_le, trapframeVpn, userstack, pgsize]
  have hBase : sub64 ((npages sz + 2) * 4096) (userstack * pgsize) = (npages sz + 1) * 4096 := by
    grind [sub64_of_le, trapframeVpn, userstack, pgsize]
  have hDiv : npages sz * 4096 / 4096 = npages sz := by omega
  rw [if_neg hZero]
  simp only [wp_bind, hGuard, hBase]
  refine wp_post (uvmclear_spec h1.typed h1.table (by rw [hDiv]; omega) (by rw [hDiv]; exact (hFull _ (by omega)).1)) ?_
  rintro - m2 ⟨ht2, hTouch2, hTable2, hView2, -⟩
  have hStack : m2.view r (npages sz + 1) = m1.view r (npages sz + 1) := by
    rw [hView2 _ (vpn_lt (by omega)), hDiv, if_neg (by omega)]
  obtain ⟨hV, hU⟩ := hFull (npages sz + 1) (by omega)
  rw [← hStack] at hV hU
  -- what every exit from here on needs
  have hDone : ∀ {m3 : Mem}, Served r tf tr (npages ((npages sz + 2) * 4096)) m2 ρ1 m3 ρ1 →
      ∃ ρ', Typed m3 ρ' ∧ Touches r m ρ m3 ρ' ∧ (npages sz + 2) * 4096 ≤ trapframeVa ∧
        UserTable m3 ρ' r tf tr (npages ((npages sz + 2) * 4096)) :=
    fun hServed => ⟨ρ1, hServed.typed, (hTouch1.trans hTouch2).trans hServed.touches, h1.size, hServed.table⟩
  refine wp_post (pushArgs_spec p (by omega) argv 0 _ [] ht2 hTable2 hV hU (by omega) hLen (Nat.zero_le _)
    (by omega) (by omega)) ?_
  rintro (_ | ⟨acc, sp⟩) m3 ⟨hServed, hRes⟩
  · simp only [wp_pure]
    exact hDone hServed
  obtain ⟨hCount, hArgs, hLow, hHigh⟩ := hRes _ rfl
  rw [trapframeVpn] at hBound1
  simp only [maxarg] at hArgs
  simp only [List.length_nil] at hCount hLow hHigh
  have hLenStack : ((acc.reverse ++ [0]).flatMap (Bytes.bytesLE 8)).length = 8 * (argv.length + 1) := by
    rw [length_ustack, List.length_append, List.length_reverse, hCount]
    simp
  simp only [sub64_of_le (show (argv.length + 1) * 8 ≤ sp by omega) (show sp < 2 ^ 64 by omega)]
  split
  · rw [wp_pure]
    exact hDone hServed
  · rename_i hRoom
    rw [wp_bind, copyout]
    have hView3 : m3.view r (npages sz + 1) = m2.view r (npages sz + 1) := hServed.view _ (by omega) hV
    refine wp_post (copyoutLoop_mapped_spec _ _ _ hServed.typed hServed.table
      (userRange_page (b := npages sz + 1) (by rw [hView3]; exact hV) (by rw [hView3]; exact hU) (by omega) ?_) ?_) ?_
    · rw [hLenStack]
      omega
    · rw [hLenStack, maxva_eq]
      omega
    rintro ok m4 ⟨hServed4, -⟩
    cases ok <;> simp only [Bool.false_eq_true, if_false, if_true, wp_pure] <;> exact hDone (hServed.trans hServed4)

end

end Xv6K230
