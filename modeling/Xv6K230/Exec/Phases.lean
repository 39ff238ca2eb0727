import Xv6K230.Exec.Loading
import Xv6K230.Exec.Stack
import Xv6K230.Kernel.ExecMemory
import Xv6K230.Names.Alone

/-! # The phases of exec

`kexec` finds and locks the file, loads it, lets go of the file, sets up the stack pages, and then places the arguments
and commits.
-/

namespace Xv6K230

open Vm Fs Riscv Prog Elf

def imageTop (segs : List Segment) : Nat := (npages (extent segs) + 2) * 4096

structure Prepared (v : Node) (segs : List Segment) (r tf tr : Nat) (m : Mem) (ρ : Roles) : Prop where
  stack : StackPage r tf tr (imageTop segs) (npages (extent segs) + 1) m ρ
  size : imageTop segs ≤ trapframeVa
  guard : (m.view r (npages (extent segs))).has pteV ∧ (m.view r (npages (extent segs))).has pteU = false
  mapped : ∀ p < npages (extent segs), m.MappedUser r p
  byte : ∀ va, va / 4096 < npages (extent segs) → m.logical r (imageTop segs) va = some (image v segs va)
  perm : ∀ p < npages (extent segs), ∃ s, mapper segs p = some s ∧ (m.view r p).has pteW = s.writable ∧
    (m.view r p).has pteX = s.executable

section

variable {E : Stop → Prop} {v : Node} {segs : List Segment} {r tf tr : Nat} {m : Mem} {ρ : Roles}

lemma npages_imageTop (segs : List Segment) : npages (imageTop segs) = npages (extent segs) + 2 := npages_mul _

lemma writable_stack (p : Nat) : (pa2pte p ||| userPerm pteW ||| pteV).has pteW := by
  rw [has_pteW, getLsbD_entry _ _ (by decide)]
  decide

lemma Building.rounded {sz : Nat} (h : Building r tf tr sz m ρ) : Building r tf tr (npages sz * 4096) m ρ := by
  have hPages : npages (npages sz * 4096) = npages sz := npages_mul _
  refine ⟨h.typed, ?_, size_of_pages ?_, ?_⟩ <;> rw [hPages]
  · exact h.table
  · exact h.table.bound
  · exact h.full

lemma stackPages_spec (h : Laid v segs r tf tr m ρ) :
    wp (stackPages r (pgroundup (extent segs))) E (fun sz1 m' => ∃ ρ', Touches r m ρ m' ρ' ∧
      (sz1 = 0 ∧ Building r tf tr (pgroundup (extent segs)) m' ρ' ∨ sz1 = imageTop segs ∧ Prepared v segs r tf tr m' ρ')) m := by
  have h0 := h.building.rounded
  have hBound := h.building.table.bound
  have hPages : npages (npages (extent segs) * 4096) = npages (extent segs) := npages_mul _
  rw [pgroundup_npages h.building.size]
  have hNew : uint64 (npages (extent segs) * 4096 + (userstack + 1) * pgsize) = imageTop segs := by
    rw [trapframeVpn] at hBound
    simp only [uint64, userstack, pgsize, imageTop]
    omega
  unfold stackPages
  rw [hNew, wp_bind]
  refine wp_post (uvmalloc_spec (by decide : userPerm pteW &&& ppnMask = 0#64) h0.typed h0.table h0.size (.inr fun p hp => (h0.full p hp).1)) ?_
  intro sz1 m1 hGrown
  have hMax : max (npages (extent segs) * 4096) (imageTop segs) = imageTop segs := by
    rw [imageTop]
    omega
  rw [hMax] at hGrown
  by_cases hZero : sz1 = 0
  · rw [if_pos hZero, wp_pure]
    obtain ⟨-, ρ1, hGrown⟩ | ⟨hRes, -⟩ := hGrown
    · exact ⟨ρ1, hGrown.touches, .inl ⟨rfl, h0.regrown_same hGrown⟩⟩
    · rw [imageTop] at hRes
      omega
  obtain ⟨hEq, -⟩ | ⟨rfl, ρ1, hGrown, hFresh⟩ := hGrown
  · exact absurd hEq hZero
  rw [if_neg hZero, wp_bind]
  have h1 := h0.of_regrown hGrown hFresh
  have hBound1 := h1.table.bound
  rw [npages_imageTop] at hBound1
  have hGuard : sub64 (imageTop segs) ((userstack + 1) * pgsize) = npages (extent segs) * 4096 := by
    rw [trapframeVpn] at hBound1
    rw [userstack, pgsize, imageTop, sub64_of_le (by omega) (by omega)]
    omega
  have hDiv : npages (extent segs) * 4096 / 4096 = npages (extent segs) := by omega
  have hMapped : ∀ p < npages (extent segs) + 2, m1.MappedUser r p := fun p hp => h1.mapped (by rw [npages_imageTop]; exact hp)
  rw [hGuard]
  refine wp_post (uvmclear_spec h1.typed h1.table (by rw [hDiv]; omega) (by rw [hDiv]; exact (hMapped _ (by omega)).2.1)) ?_
  rintro - m2 ⟨ht2, hTouch2, hTable2, hView2, hPage2⟩
  rw [hDiv] at hView2
  rw [wp_pure]
  have hOther : ∀ p < npages (extent segs) + 2, p ≠ npages (extent segs) → m2.view r p = m1.view r p := by
    intro p hp hne
    rw [hView2 p (vpn_lt (by omega)), if_neg hne]
  have hOld : ∀ p < npages (extent segs), m1.view r p = m.view r p := by
    intro p hp
    exact hGrown.view p (vpn_lt (by omega)) (.inl (by rw [hPages]; exact hp))
  refine ⟨ρ1, hGrown.touches.trans hTouch2, .inr ⟨rfl, ⟨ht2, hTable2, ?_, ?_⟩, h1.size, ?_, fun p hp => ?_, fun va hva => ?_, fun p hp => ?_⟩⟩
  · exact (mappedUser_congr (hOther _ (by omega) (by omega))).mpr (hMapped _ (by omega))
  · obtain ⟨p, -, hView, -⟩ := hFresh (npages (extent segs) + 1) (by omega) (by rw [npages_imageTop]; omega)
    rw [hOther _ (by omega) (by omega), hView]
    exact writable_stack p
  · rw [hView2 _ (vpn_lt (by omega)), if_pos rfl, valid_clear_user]
    exact ⟨(hMapped _ (by omega)).2.1, user_clear_user _⟩
  · exact (mappedUser_congr (hOther p (by omega) (by omega))).mpr (hMapped p (by omega))
  · have hSame2 := hOther (va / 4096) (by omega) (by omega)
    have hMapped1 := hMapped (va / 4096) (by omega)
    have hMapped0 := h.building.mapped hva
    have hLeaf := (h.building.table.user _ (lt_of_lt_of_le hva hBound) hMapped0.2.1).2
    obtain ⟨hRole, hPage⟩ := hGrown.keep _ _ (by rw [hPages]; exact hva) hLeaf
    rw [logical_congr hSame2 fun _ => hPage2 _ fun l a hTable => ?_]
    · rw [logical_of_mapped hMapped1, hOld _ hva, hPage, ← h.byte va hva, logical_of_mapped hMapped0]
    · rw [hOld _ hva, hRole] at hTable
      exact Role.noConfusion hTable
  · rw [hOther p (by omega) (by omega), hOld p hp]
    exact h.perm p hp

end

/-! ## The phases of exec -/

open Vm Fs Riscv Prog Names

def execOpen (cwd : Ip) (path : Text) : FsM (Option Ip) := do
  beginOp
  match ← namei cwd path with
  | none =>
    endOp
    return none
  | some ip =>
    ilock ip
    return some ip

def execClose (ip : Ip) : FsM Unit := do
  iunlockput ip
  endOp

/-- `kexec` up to the stack pages: root, size and entry point of the new image. -/
def execLoad (me : Pid) (path : Text) : KM (Option (Nat × Nat × Nat)) := do
  let p ← getProc me
  match p.cwd with
  | none => return none
  | some cwd =>
    match ← onFs (execOpen cwd path) with
    | none => return none
    | some ip =>
      let (r, elf) ← onFs (readiKernel ip 0 elfhdrSize)
      if r ≠ elfhdrSize ∨ field elf 0 4 ≠ elfMagic then
        onFs (execClose ip)
        return none
      else
        let tramp ← Prog.read Kernel.trampoline
        let pagetable ← onMem (procPagetable tramp p.trapframe)
        if pagetable = 0 then
          onFs (execClose ip)
          return none
        else
          let (ok, sz) ← loadSegments pagetable ip (field elf 56 2) (field elf 32 8 % 2 ^ 32) 0
          if ok then
            onFs (execClose ip)
            let sz1 ← onMem (stackPages pagetable (pgroundup sz))
            if sz1 = 0 then
              onMem (procFreepagetable pagetable (pgroundup sz))
              return none
            else
              return some (pagetable, sz1, field elf 24 8)
          else
            onMem (procFreepagetable pagetable sz)
            onFs (execClose ip)
            return none

/-- The rest of it: the arguments, and the new image in place of the old one. -/
def execFinish (me : Pid) (path : Text) (argv : List Text) (pagetable sz entry : Nat) : KM Int := do
  let p ← getProc me
  match ← onMem (placeArgs p pagetable sz argv) with
  | none => execBad pagetable sz
  | some sp =>
    onMem (setEntry p.trapframe entry sp)
    modProc me fun p => { p with name := lastElem path, pagetable := pagetable, sz := sz }
    onMem (procFreepagetable p.pagetable p.sz)
    return argv.length

section

variable {α β : Type} (me : Pid) (path : Text) (argv : List Text) (pagetable sz entry : Nat)

lemma onMem_bind (m : MemM α) (f : α → MemM β) : onMem (m >>= f) = onMem m >>= fun a => onMem (f a) := by
  apply zoom_bind
  · exact fun _ _ => rfl
  · exact fun _ _ _ => rfl

lemma onMem_pure (a : α) : onMem (pure a : MemM α) = pure a := rfl

lemma getProc_onMem (m : MemM α) (f : Proc → α → KM β) :
    (do
      let p ← getProc me
      let a ← onMem m
      f p a) = (do
      let a ← onMem m
      let p ← getProc me
      f p a) := by
  funext k
  change Prog.seq (onMem m) (f (k.proc me)) k = Prog.seq (onMem m) (fun a => Prog.seq (getProc me) fun p => f p a) k
  unfold Prog.seq onMem zoom
  cases m k.mem <;> rfl

lemma execCommit_eq : execCommit me path argv pagetable sz entry = (do
    let sz1 ← onMem (stackPages pagetable (pgroundup sz))
    if sz1 = 0 then
      execBad pagetable (pgroundup sz)
    else
      execFinish me path argv pagetable sz1 entry) := by
  unfold execCommit execFinish
  simp only [buildStack_eq, onMem_bind, bind_assoc]
  rw [getProc_onMem]
  congr 1
  funext sz1
  by_cases hZero : sz1 = 0
  · simp only [if_pos hZero, onMem_pure, pure_bind]
    rfl
  · simp only [if_neg hZero, onMem_bind, onMem_pure, bind_assoc, pure_bind]
    congr 1
    funext p
    congr 1
    funext res
    cases res <;> rfl

lemma execBadLocked_eq {x : Nat} (hx : x ≠ 0) (ip : Ip) : execBadLocked x sz ip = (do
    onMem (procFreepagetable x sz)
    onFs (execClose ip)
    return -1) := by
  unfold execBadLocked execClose
  rw [if_pos hx]
  simp only [onFs_bind, bind_assoc]

lemma execBadLocked_zero_eq (ip : Ip) : execBadLocked 0 0 ip = (do
    onFs (execClose ip)
    return -1) := by
  unfold execBadLocked execClose
  simp only [ne_eq, not_true_eq_false, if_false, onFs_bind, bind_assoc]

lemma kexec_eq : kexec me path argv = (do
    match ← execLoad me path with
    | none => return -1
    | some (pagetable, sz, entry) => execFinish me path argv pagetable sz entry) := by
  unfold kexec execLoad execOpen
  simp only [bind_assoc]
  congr 1
  funext p
  cases p.cwd with
  | none => rfl
  | some cwd =>
    simp only [onFs_bind, bind_assoc]
    congr 1
    funext _
    congr 1
    funext found
    cases found with
    | none => simp only [onFs_bind, onFs_pure, bind_assoc, pure_bind]
    | some ip =>
      simp only [onFs_bind, onFs_pure, bind_assoc, pure_bind]
      congr 1
      funext _
      congr 1
      funext header
      obtain ⟨r, elf⟩ := header
      dsimp only
      by_cases hBad : r ≠ elfhdrSize ∨ field elf 0 4 ≠ elfMagic
      · simp only [if_pos hBad, execBadLocked_zero_eq, bind_assoc, pure_bind]
      simp only [if_neg hBad, bind_assoc]
      congr 1
      funext tramp
      congr 1
      funext x
      by_cases hZero : x = 0
      · simp only [if_pos hZero, execBadLocked_zero_eq, bind_assoc, pure_bind]
      simp only [if_neg hZero, bind_assoc]
      congr 1
      funext image
      obtain ⟨ok, sz⟩ := image
      cases ok with
      | false => simp only [Bool.false_eq_true, if_false, execBadLocked_eq sz hZero, bind_assoc, pure_bind]
      | true =>
        simp only [if_true, execCommit_eq, execClose, onFs_bind, bind_assoc]
        congr 1
        funext _
        congr 1
        funext _
        congr 1
        funext sz1
        by_cases hNone : sz1 = 0
        · simp only [if_pos hNone, execBad, bind_assoc, pure_bind]
        · simp only [if_neg hNone, pure_bind]

end

end Xv6K230
