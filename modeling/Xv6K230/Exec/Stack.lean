import Xv6K230.Kernel.Image
import Xv6K230.Vm.Strings
import Xv6K230.Lib.Laws

/-! # The argument stack

The arguments go to the last page of the image: the strings one below the other, each aligned to 16 bytes, and under
them the array of their addresses.
-/

namespace Xv6K230

open Vm Riscv Prog

/-- The room that `n` bytes take below an aligned address. -/
def padded (n : Nat) : Nat := (n + 15) / 16 * 16

def stringRoom (argv : List Text) : Nat := (argv.map fun s => padded (s.length + 1)).sum

/-- What the strings and the array of their addresses take together. -/
def stackRoom (argv : List Text) : Nat := stringRoom argv + padded (8 * (argv.length + 1))

def places : (sp : Nat) → List Text → List Nat
  | _, [] => []
  | sp, s :: argv => (sp - padded (s.length + 1)) :: places (sp - padded (s.length + 1)) argv

section

variable {s : Text} {argv : List Text} {sp n : Nat}

lemma stringRoom_nil : stringRoom [] = 0 := rfl

lemma stringRoom_cons : stringRoom (s :: argv) = padded (s.length + 1) + stringRoom argv := by
  rw [stringRoom, List.map_cons, List.sum_cons]
  rfl

lemma length_places : ∀ (argv : List Text) (sp : Nat), (places sp argv).length = argv.length
  | [], _ => rfl
  | _ :: argv, _ => congrArg (· + 1) (length_places argv _)

lemma sub_padded (hsp : sp % 16 = 0) (hn : n ≤ sp) (hlt : sp < 2 ^ 64) :
    sub64 sp n - sub64 sp n % 16 = sp - padded n ∧ padded n ≤ sp ∧ (sp - padded n) % 16 = 0 := by
  rw [sub64_of_le hn hlt]
  simp only [padded]
  omega

lemma places_bounds : ∀ {argv : List Text} {sp : Nat}, stringRoom argv ≤ sp → ∀ a ∈ (places sp argv).zip argv,
    sp - stringRoom argv ≤ a.1 ∧ a.1 + (a.2.length + 1) ≤ sp := by
  intro argv
  induction argv with
  | nil => exact fun _ _ ha => absurd ha List.not_mem_nil
  | cons s argv ih =>
    grind [stringRoom_cons, padded, places]

lemma places_apart : ∀ {argv : List Text} {sp : Nat}, stringRoom argv ≤ sp →
    ((places sp argv).zip argv).Pairwise fun a b => b.1 + (b.2.length + 1) ≤ a.1 := by
  intro argv
  induction argv with
  | nil => exact fun _ => List.Pairwise.nil
  | cons s argv ih =>
    intro sp hRoom
    rw [stringRoom_cons] at hRoom
    rw [places, List.zip_cons_cons]
    exact .cons (fun b hb => (places_bounds (by omega) b hb).2) (ih (by omega))

end

/-! ## Copies to one page -/

section

variable {E : Stop → Prop} {m : Mem} {ρ : Roles} {r tf tr sz dst : Nat} {src : Text}

/-- `copyout` inside a page that is mapped and writable, whatever the current process is. -/
lemma copyout_page (p psz : Nat) (ht : Typed m ρ) (h : UserTable m ρ r tf tr (npages sz)) (hMapped : m.MappedUser r (dst / 4096))
    (hW : (m.view r (dst / 4096)).has pteW) (hsrc : src ≠ []) (hFits : dst % 4096 + src.length ≤ 4096) :
    wp (copyout p psz r dst src) E (fun ok m' => ok = true ∧ Stores r tf tr sz m ρ dst src m' ρ) m := by
  have hLen : 0 < src.length := List.length_pos_iff.mpr hsrc
  have hDown : pgrounddown dst = dst / 4096 * 4096 := rfl
  have hOff : dst - dst / 4096 * 4096 = dst % 4096 := by omega
  have hDiv : dst / 4096 * 4096 / 4096 = dst / 4096 := by omega
  have hva : dst / 4096 * 4096 < maxva := hMapped.1
  obtain ⟨hAddr, hne⟩ := userAddr_of_user ht h hva (by rw [hDiv]; exact hMapped.2.1)
    (by rw [hDiv]; exact hMapped.2.2)
  rw [hDiv] at hAddr
  obtain ⟨fuel, hFuel⟩ : ∃ fuel, src.length = fuel + 1 := ⟨src.length - 1, by omega⟩
  rw [copyout, hFuel, copyoutLoop, if_neg hsrc]
  simp only [hDown, hOff, show pgsize = 4096 from rfl]
  rw [if_neg (by omega)]
  simp only [wp_bind, faultIn, wp_walkaddr, if_neg hne, wp_pure, wp_lookup hva, hDiv]
  cases hSlot : m.slot r (dst / 4096) with
  | none =>
    have hNone := hMapped.2.1
    rw [view_of_slot_none hSlot] at hNone
    exact absurd hNone (by decide)
  | some q =>
    obtain ⟨q, i⟩ := q
    simp only [wp_bind, wp_read]
    rw [← view_of_slot_some hSlot, if_neg (by rw [hW]; decide), show min (4096 - dst % 4096) src.length = src.length by omega,
      List.take_length, List.drop_length, hAddr]
    simp only [wp_bind, storeBytes, wp_update]
    have hStop : copyoutLoop p psz r fuel (dst / 4096 * 4096 + 4096) [] = pure true := by cases fuel <;> rfl
    rw [hStop, wp_pure]
    exact ⟨rfl, stores_bytes ht h hMapped hFits⟩

lemma copyout_beyond (p psz : Nat) (hsrc : src ≠ []) (hdst : maxva ≤ pgrounddown dst) :
    wp (copyout p psz r dst src) E (fun ok m' => ok = false ∧ m' = m) m := by
  have hLen : 0 < src.length := List.length_pos_iff.mpr hsrc
  obtain ⟨fuel, hFuel⟩ : ∃ fuel, src.length = fuel + 1 := ⟨src.length - 1, by omega⟩
  rw [copyout, hFuel, copyoutLoop, if_neg hsrc, if_pos hdst, wp_pure]
  exact ⟨rfl, rfl⟩

lemma bytesAt_of_stores {m' : Mem} (h : Stores r tf tr sz m ρ dst src m' ρ) : m'.bytesAt r sz dst src.length = src.map some := by
  unfold Mem.bytesAt
  apply List.ext_getElem?
  intro i
  rw [List.getElem?_map, List.getElem?_map]
  by_cases hi : i < src.length
  · rw [List.getElem?_range hi, Option.map_some, h.logical, if_pos (by omega), show dst + i - dst = i by omega,
      List.getElem?_eq_getElem hi, Option.map_some]
  · rw [List.getElem?_eq_none (by rw [List.length_range]; omega), List.getElem?_eq_none (by omega)]
    rfl

lemma bytesAt_congr {m' : Mem} {a n : Nat} (h : ∀ va, a ≤ va → va < a + n → m'.logical r sz va = m.logical r sz va) :
    m'.bytesAt r sz a n = m.bytesAt r sz a n := by
  unfold Mem.bytesAt
  apply List.map_congr_left
  intro i hi
  exact h _ (by omega) (by have := List.mem_range.mp hi; omega)

end

/-! ## Pushing the arguments -/

section

variable {E : Stop → Prop} {ρ : Roles} {r tf tr sz b : Nat}

/-- The strings with their terminating zeros stand at these addresses. -/
def StringsAt (m : Mem) (r sz : Nat) (as : List Nat) (argv : List Text) : Prop :=
  ∀ a ∈ as.zip argv, m.bytesAt r sz a.1 (a.2.length + 1) = (a.2 ++ [0]).map some

structure Pushed (r tf tr sz b sp : Nat) (m : Mem) (ρ : Roles) (m' : Mem) : Prop where
  served : Served r tf tr (npages sz) m ρ m' ρ
  frame : ∀ va, va < b * 4096 ∨ sp ≤ va → m'.logical r sz va = m.logical r sz va

structure StackPage (r tf tr sz b : Nat) (m : Mem) (ρ : Roles) : Prop where
  typed : Typed m ρ
  table : UserTable m ρ r tf tr (npages sz)
  mapped : m.MappedUser r b
  writable : (m.view r b).has pteW

lemma Pushed.refl {m : Mem} (h : StackPage r tf tr sz b m ρ) (sp : Nat) : Pushed r tf tr sz b sp m ρ m :=
  ⟨Served.refl h.typed h.table, fun _ _ => rfl⟩

lemma StackPage.served {m m' : Mem} (h : StackPage r tf tr sz b m ρ) (hServed : Served r tf tr (npages sz) m ρ m' ρ) :
    StackPage r tf tr sz b m' ρ := by
  have hView := hServed.view b h.mapped.lt h.mapped.2.1
  exact ⟨hServed.typed, hServed.table, (mappedUser_congr hView).mpr h.mapped, by rw [hView]; exact h.writable⟩

lemma StackPage.copyout {m : Mem} (h : StackPage r tf tr sz b m ρ) (p psz : Nat) {sp : Nat} {src : Text} (hsrc : src ≠ [])
    (hLow : b * 4096 + padded src.length ≤ sp) (hHigh : sp ≤ (b + 1) * 4096) :
    wp (Vm.copyout p psz r (sp - padded src.length) src) E (fun ok m' => ok = true ∧ Pushed r tf tr sz b sp m ρ m' ∧
      (∀ va, sp - padded src.length + src.length ≤ va → m'.logical r sz va = m.logical r sz va) ∧
      m'.bytesAt r sz (sp - padded src.length) src.length = src.map some) m := by
  have hLen : 0 < src.length := List.length_pos_iff.mpr hsrc
  have hPad : src.length ≤ padded src.length := by
    simp only [padded]
    omega
  have hPage : (sp - padded src.length) / 4096 = b := by omega
  refine wp_post (copyout_page p psz h.typed h.table (by rw [hPage]; exact h.mapped) (by rw [hPage]; exact h.writable) hsrc
    (by omega)) ?_
  rintro ok m' ⟨hOk, hStores⟩
  refine ⟨hOk, ⟨hStores.served, fun va hva => ?_⟩, fun va hva => ?_, bytesAt_of_stores hStores⟩ <;>
    rw [hStores.logical, if_neg (by omega)]

/-- The strings are placed exactly if there is room for them. The addresses are those of `places`. -/
lemma pushArgs_exact (p : Proc) : ∀ (argv : List Text) (argc sp : Nat) (acc : List Nat) {m : Mem},
    StackPage r tf tr sz b m ρ → (∀ s ∈ argv, s.length + 1 < 2 ^ 31) → argc + argv.length ≤ maxarg → sp % 16 = 0 →
    b * 4096 ≤ sp → sp ≤ (b + 1) * 4096 →
    wp (pushArgs p r (b * 4096) argv argc sp acc) E (fun res m' => Pushed r tf tr sz b sp m ρ m' ∧
      match res with
      | none => sp < b * 4096 + stringRoom argv
      | some (acc', sp') => b * 4096 + stringRoom argv ≤ sp ∧ sp' = sp - stringRoom argv ∧ sp' % 16 = 0 ∧
          acc' = (places sp argv).reverse ++ acc ∧ StringsAt m' r sz (places sp argv) argv) m := by
  intro argv
  induction argv with
  | nil =>
    intro argc sp acc m h _ _ hsp hLow _
    rw [pushArgs, wp_pure, stringRoom_nil]
    dsimp only
    exact ⟨Pushed.refl h sp, by rw [Nat.add_zero]; exact hLow, (Nat.sub_zero sp).symm, hsp, rfl, fun _ ha => absurd ha List.not_mem_nil⟩
  | cons s argv ih =>
    intro argc sp acc m h hLen hArgc hsp hLow hHigh
    have hs := hLen s List.mem_cons_self
    have hMax := h.mapped.1
    rw [maxva_eq] at hMax
    have hPad : s.length + 1 ≤ padded (s.length + 1) := by
      simp only [padded]
      omega
    rw [List.length_cons] at hArgc
    rw [pushArgs, if_neg (by omega), stringRoom_cons]
    by_cases hWrap : sp < s.length + 1
    · -- the address wraps around and lies beyond all user memory
      have hSub : sub64 sp (s.length + 1) = 2 ^ 64 - (s.length + 1 - sp) := by
        simp only [sub64]
        omega
      have hBeyond : maxva ≤ pgrounddown (sub64 sp (s.length + 1) - sub64 sp (s.length + 1) % 16) := by
        rw [hSub, maxva_eq]
        simp only [pgrounddown, pgsize]
        omega
      dsimp only
      rw [if_neg (by rw [hSub]; omega), wp_bind]
      refine wp_post (copyout_beyond p.pagetable p.sz (by simp) hBeyond) ?_
      rintro ok m' ⟨rfl, rfl⟩
      rw [if_neg (by decide), wp_pure]
      exact ⟨Pushed.refl h sp, by omega⟩
    · obtain ⟨hPlace, hPadLe, hAligned⟩ := sub_padded (n := s.length + 1) hsp (by omega) (by omega)
      dsimp only
      rw [hPlace]
      by_cases hBase : sp - padded (s.length + 1) < b * 4096
      · rw [if_pos hBase, wp_pure]
        exact ⟨Pushed.refl h sp, by omega⟩
      rw [if_neg hBase, wp_bind]
      have hCopied : (s ++ [0]).length = s.length + 1 := by rw [List.length_append, List.length_singleton]
      have hRoom : b * 4096 + padded (s ++ [0]).length ≤ sp := by
        rw [hCopied]
        exact Nat.add_le_of_le_sub hPadLe (not_lt.mp hBase)
      have hCopy := h.copyout (E := E) p.pagetable p.sz (by simp : s ++ [0] ≠ []) hRoom hHigh
      rw [hCopied] at hCopy
      refine wp_post hCopy ?_
      rintro ok m1 ⟨rfl, hPushed, -, hString⟩
      rw [if_pos rfl]
      refine wp_post (ih (argc + 1) (sp - padded (s.length + 1)) _ (h.served hPushed.served)
        (fun t ht => hLen t (List.mem_cons_of_mem _ ht)) (by omega) hAligned (not_lt.mp hBase) (by omega)) ?_
      rintro res m2 ⟨hRest, hRes⟩
      refine ⟨⟨hPushed.served.trans hRest.served, fun va hva => ?_⟩, ?_⟩
      · rw [hRest.frame va (by omega), hPushed.frame va hva]
      cases res with
      | none =>
        dsimp only at hRes ⊢
        omega
      | some a =>
        obtain ⟨acc', sp'⟩ := a
        dsimp only at hRes ⊢
        obtain ⟨hRoom, rfl, hAligned', rfl, hStrings⟩ := hRes
        have hAll := Nat.add_le_of_le_sub hPadLe hRoom
        refine ⟨by rw [Nat.add_comm (padded _), ← Nat.add_assoc]; exact hAll, Nat.sub_sub .., hAligned', ?_, ?_⟩
        · rw [places, List.reverse_cons, List.append_assoc]
          rfl
        · intro a ha
          rw [places, List.zip_cons_cons] at ha
          rcases List.mem_cons.mp ha with rfl | ha
          · rw [← hString]
            exact bytesAt_congr fun va hva _ => hRest.frame va (.inr hva)
          · exact hStrings a ha

end

/-! ## The array of addresses -/

/-- The part of `kexec` that places strings and array in an image of `sz` bytes: the final stack pointer. -/
def placeArgs (p : Proc) (pagetable sz : Nat) (argv : List Text) : MemM (Option Nat) := do
  match ← pushArgs p pagetable (sub64 sz (userstack * pgsize)) argv 0 sz [] with
  | none => return none
  | some (acc, sp) =>
    let sp := sub64 sp ((argv.length + 1) * 8)
    let sp := sp - sp % 16
    if sp < sub64 sz (userstack * pgsize) then
      return none
    else if ← copyout p.pagetable p.sz pagetable sp ((acc.reverse ++ [0]).flatMap (Bytes.bytesLE 8)) then
      return some sp
    else
      return none

/-- The stack pages: the guard page and the page above it. The new size, or 0. -/
def stackPages (pagetable sz : Nat) : MemM Nat := do
  let sz1 ← uvmalloc pagetable sz (uint64 (sz + (userstack + 1) * pgsize)) pteW
  if sz1 = 0 then
    return 0
  else
    uvmclear pagetable (sub64 sz1 ((userstack + 1) * pgsize))
    return sz1

lemma buildStack_eq (p : Proc) (pagetable sz : Nat) (argv : List Text) :
    buildStack p pagetable sz argv = (do
      let sz1 ← stackPages pagetable (pgroundup sz)
      if sz1 = 0 then
        return (pgroundup sz, none)
      else
        return (sz1, ← placeArgs p pagetable sz1 argv)) := by
  unfold buildStack stackPages placeArgs
  simp only [bind_assoc]
  congr 1
  funext sz1
  by_cases hZero : sz1 = 0
  · simp only [if_pos hZero, pure_bind, if_true]
  · simp only [if_neg hZero, bind_assoc, pure_bind]
    congr 1
    funext _
    congr 1
    funext res
    cases res with
    | none => simp only [pure_bind]
    | some a =>
      obtain ⟨acc, sp⟩ := a
      dsimp only
      split
      · simp only [pure_bind]
      · simp only [bind_assoc]
        congr 1
        funext ok
        cases ok <;> simp only [Bool.false_eq_true, if_false, if_true, pure_bind]

/-- The arguments as the new program finds them: `sp` points to the array, the strings are where it says, apart
from each other and from the array, and all of it lies between `base` and the end of the image. -/
structure ArgumentsAt (m : Mem) (r sz base : Nat) (argv : List Text) (sp : Nat) (as : List Nat) : Prop where
  length : as.length = argv.length
  aligned : sp % 16 = 0
  array : m.bytesAt r sz sp (8 * (argv.length + 1)) = ((as ++ [0]).flatMap (Bytes.bytesLE 8)).map some
  strings : StringsAt m r sz as argv
  above : base ≤ sp
  bounds : ∀ a ∈ as.zip argv, sp + 8 * (argv.length + 1) ≤ a.1 ∧ a.1 + (a.2.length + 1) ≤ sz
  apart : (as.zip argv).Pairwise fun a b => b.1 + (b.2.length + 1) ≤ a.1

section

variable {E : Stop → Prop} {ρ : Roles} {r tf tr b : Nat} {m : Mem} {argv : List Text}

lemma placeArgs_exact (p : Proc) (h : StackPage r tf tr ((b + 1) * 4096) b m ρ) (hLen : ∀ s ∈ argv, s.length + 1 < 2 ^ 31)
    (hArgc : argv.length < maxarg) :
    wp (placeArgs p r ((b + 1) * 4096) argv) E (fun res m' => Pushed r tf tr ((b + 1) * 4096) b ((b + 1) * 4096) m ρ m' ∧
      match res with
      | none => 4096 < stackRoom argv
      | some sp => stackRoom argv ≤ 4096 ∧ sp + stackRoom argv = (b + 1) * 4096 ∧
          ArgumentsAt m' r ((b + 1) * 4096) (b * 4096) argv sp (places ((b + 1) * 4096) argv)) m := by
  have hb : b < 67108864 := by
    have hMax := h.mapped.1
    rw [maxva_eq] at hMax
    omega
  have hBase : sub64 ((b + 1) * 4096) (userstack * pgsize) = b * 4096 := by
    rw [userstack, pgsize, sub64_of_le (by omega) (by omega)]
    omega
  have hTop : (b + 1) * 4096 % 16 = 0 := by omega
  have hOrder : b * 4096 ≤ (b + 1) * 4096 := Nat.mul_le_mul_right _ (Nat.le_succ b)
  unfold placeArgs
  rw [hBase, wp_bind]
  refine wp_post (pushArgs_exact p argv 0 ((b + 1) * 4096) [] h hLen (by omega) hTop hOrder (le_refl _)) ?_
  rintro (_ | ⟨acc, sp⟩) m1 ⟨hPushed, hRes⟩
  · dsimp only at hRes ⊢
    rw [wp_pure]
    refine ⟨hPushed, ?_⟩
    dsimp only
    rw [stackRoom]
    omega
  dsimp only at hRes ⊢
  obtain ⟨hRoom, hsp, hAligned, rfl, hStrings⟩ := hRes
  rw [List.append_nil, List.reverse_reverse]
  have hArray : ((places ((b + 1) * 4096) argv ++ [0]).flatMap (Bytes.bytesLE 8)).length = 8 * (argv.length + 1) := by
    rw [length_ustack, List.length_append, length_places, List.length_singleton]
  have hPad : 8 * (argv.length + 1) ≤ padded (8 * (argv.length + 1)) ∧ padded (8 * (argv.length + 1)) ≤ 256 := by
    simp only [maxarg] at hArgc
    simp only [padded]
    omega
  have hComm : (argv.length + 1) * 8 = 8 * (argv.length + 1) := Nat.mul_comm _ _
  rw [hComm]
  by_cases hSmall : sp < 8 * (argv.length + 1)
  · -- only possible in the first page of memory, where the address wraps around
    have hSub : sub64 sp (8 * (argv.length + 1)) = 2 ^ 64 - (8 * (argv.length + 1) - sp) := by
      simp only [sub64]
      omega
    have hBeyond : maxva ≤ pgrounddown (sub64 sp (8 * (argv.length + 1)) - sub64 sp (8 * (argv.length + 1)) % 16) := by
      rw [hSub, maxva_eq]
      simp only [pgrounddown, pgsize]
      omega
    rw [if_neg (by rw [hSub]; omega), wp_bind]
    refine wp_post (copyout_beyond p.pagetable p.sz ?_ hBeyond) ?_
    · exact List.ne_nil_of_length_pos (by omega)
    · rintro ok m2 ⟨rfl, rfl⟩
      rw [if_neg (by decide), wp_pure]
      refine ⟨hPushed, ?_⟩
      dsimp only
      rw [stackRoom]
      omega
  obtain ⟨hPlace, hPadLe, hAligned'⟩ := sub_padded (n := 8 * (argv.length + 1)) hAligned (by omega) (by omega)
  rw [hPlace]
  by_cases hLow : sp - padded (8 * (argv.length + 1)) < b * 4096
  · rw [if_pos hLow, wp_pure]
    refine ⟨hPushed, ?_⟩
    dsimp only
    rw [stackRoom]
    omega
  rw [if_neg hLow, wp_bind]
  have hFits := Nat.add_le_of_le_sub hPadLe (not_lt.mp hLow)
  have hNonempty : (places ((b + 1) * 4096) argv ++ [0]).flatMap (Bytes.bytesLE 8) ≠ [] := List.ne_nil_of_length_pos (by omega)
  have hTop : sp ≤ (b + 1) * 4096 := by omega
  have hCopy := (h.served hPushed.served).copyout (E := E) p.pagetable p.sz hNonempty
    (by rw [hArray]; exact hFits) hTop
  rw [hArray] at hCopy
  refine wp_post hCopy ?_
  rintro ok m2 ⟨rfl, hPushed2, hAbove, hBytes⟩
  rw [if_pos rfl, wp_pure]
  have hTotal : stringRoom argv ≤ (b + 1) * 4096 := by omega
  have hBounds := places_bounds hTotal
  rw [← hsp] at hBounds
  refine ⟨⟨hPushed.served.trans hPushed2.served, fun va hva => ?_⟩, ?_⟩
  · rw [hPushed2.frame va (by omega), hPushed.frame va hva]
  dsimp only
  refine ⟨?_, ?_, length_places _ _, hAligned', hBytes, fun a ha => ?_, not_lt.mp hLow, fun a ha => ?_, places_apart hTotal⟩
  · rw [stackRoom]
    omega
  · rw [stackRoom]
    omega
  · rw [← hStrings a ha]
    refine bytesAt_congr fun va hva _ => hAbove va ?_
    have := (hBounds a ha).1
    omega
  · have := hBounds a ha
    omega

end

end Xv6K230
