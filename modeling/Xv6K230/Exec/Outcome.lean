import Xv6K230.Exec.Phases

/-! # The outcome of exec

`kexec` either fails, and then memory is as before, or the process has the image of the file with its arguments, and the
pages of the old image are free.
-/

namespace Xv6K230

open Vm Fs Riscv Prog Elf

/-! ## Undoing -/

structure Restored (m m' : Mem) : Prop where
  free : ∀ p, p ∈ m'.freelist ↔ p ∈ m.freelist
  page : ∀ p, p ∉ m.freelist → m'.page p = m.page p

section

variable {m m' : Mem} {ρ ρ' : Roles} {r tf tr b sz : Nat}

lemma Restored.refl (m : Mem) : Restored m m := ⟨fun _ => Iff.rfl, fun _ _ => rfl⟩

lemma restored_of_roles (ht : Typed m ρ) (ht' : Typed m' ρ) (h : ∀ p, ρ p ≠ .free → m'.page p = m.page p) : Restored m m' :=
  ⟨fun p => by rw [← ht'.free, ht.free], fun p hp => h p fun hFree => hp ((ht.free p).mp hFree)⟩

lemma restored_of_vacant (ht : Typed m ρ) (ht' : Typed m' ρ') (hTouch : Touches r m ρ m' ρ') (hv : Vacant ρ r) (hv' : Vacant ρ' r) :
    Restored m m' := by
  have hSame : ∀ p, ρ' p = ρ p ∧ (ρ p ≠ .free → m'.page p = m.page p) := by
    intro p
    obtain ⟨hRole, hPage⟩ | ⟨hOf, hOf'⟩ := hTouch.page p
    · exact ⟨hRole, fun _ => hPage⟩
    · exact ⟨(hv' p hOf').trans (hv p hOf).symm, fun hUsed => absurd (hv p hOf) hUsed⟩
  obtain rfl : ρ' = ρ := funext fun p => (hSame p).1
  exact restored_of_roles ht ht' fun p => (hSame p).2

lemma Vm.Touches.logical (h : Touches r m ρ m' ρ') (ht : Typed m ρ) {x : Nat} (hx : UserTable m ρ x tf tr b) (hne : x ≠ r) (va : Nat) :
    m'.logical x sz va = m.logical x sz va := by
  refine logical_congr (h.view_eq ht hx.root hne _) fun hMapped => ?_
  refine (h.keep (hx.user _ ?_ hMapped.2.1).2 hne).2
  by_contra hTop
  have hNoUser := (hx.top _ (not_lt.mp hTop) hMapped.lt hMapped.2.1).1
  rw [hMapped.2.2] at hNoUser
  cases hNoUser

end

/-! ## Loading -/

/-- What `kexec` needs of the file system: after `execOpen` a file is `Open` or everything is `Closed` again, and
closing an open file leads back. -/
structure Access (E : Stop → Prop) (cwd : Ip) (path : Text) (s : FsState) (Open : Ip → Nat → FsState → Prop)
    (Closed : FsState → Prop) : Prop where
  find : wp (execOpen cwd path) E (fun res t =>
    match res with
    | none => Closed t
    | some ip => ∃ i, Open ip i t) s
  file : ∀ ip i t, Open ip i t → Consistent t ∧ Loaded t ip i ∧ t.files i = s.files i
  close : ∀ ip i t, Open ip i t → wp (execClose ip) E (fun _ u => Closed u) t

/-- The segments that `kexec` takes from a file. -/
def Elf.taken (v : Node) : List Segment := loaded v (phnum v) (phoff v % 2 ^ 32)

structure Ready (k : Kernel) (A : List Nat) (me : Pid) (v : Node) (x : Nat) (m : Mem) (ρ ρ' : Roles) : Prop where
  spaced : k.Spaced ρ 0 A
  fresh : ρ x = .free
  touches : Touches x k.mem ρ m ρ'
  prepared : Prepared v (taken v) x (k.proc me).trapframe k.trampoline m ρ'
  header : elfhdrSize ≤ v.size ∧ magic v = elfMagic
  accepted : Accepted v (phnum v) (phoff v % 2 ^ 32)

def Finds (k : Kernel) (me : Pid) (path : Text) (i : Nat) : Prop :=
  ∃ cwd ip t, (k.proc me).cwd = some cwd ∧ execOpen cwd path k.fs = .ok (some ip, t) ∧ (t.itable ip).inum = i

section

variable {E : Stop → Prop} {k : Kernel} {A : List Nat} {me : Pid} {path : Text} {Open : Ip → Nat → FsState → Prop}
  {Closed : FsState → Prop}

lemma vacant_of_free {m : Mem} {ρ : Roles} {x : Nat} (ht : Typed m ρ) (hx : ρ x = .free) : Vacant ρ x :=
  ht.vacant (by rw [hx]; exact Role.noConfusion)

lemma execLoad_spec (hk : Owned k A) (hMe : (k.proc me).state ≠ .unused)
    (hAccess : ∀ cwd, (k.proc me).cwd = some cwd → Access E cwd path k.fs Open Closed) (hNone : (k.proc me).cwd = none → Closed k.fs) :
    wp (execLoad me path) E (fun res k' => ∃ m fs, k' = (k.setMem m).setFs fs ∧ Closed fs ∧
      match res with
      | none => Restored k.mem m
      | some (x, sz, entry) => ∃ i ρ ρ', Finds k me path i ∧ sz = imageTop (taken (k.fs.files i)) ∧ entry = Elf.entry (k.fs.files i) ∧
          Ready k A me (k.fs.files i) x m ρ ρ') k := by
  unfold execLoad
  rw [wp_bind, wp_getProc]
  cases hCwd : (k.proc me).cwd with
  | none =>
    rw [wp_pure]
    exact ⟨k.mem, k.fs, rfl, hNone hCwd, Restored.refl _⟩
  | some cwd =>
    have hFile := hAccess cwd hCwd
    simp only [wp_bind, wp_onFs]
    refine wp_mono (wp_both hFile.find (wp_self _ _)) (fun _ he => he.1) ?_
    rintro (_ | ip) t ⟨hOpen, hRun⟩
    · simp only [wp_pure]
      exact ⟨k.mem, t, rfl, hOpen, Restored.refl _⟩
    obtain ⟨i, hOpen⟩ := hOpen
    obtain ⟨hFs, hip, hSame⟩ := hFile.file ip i t hOpen
    have hFinds : Finds k me path i := ⟨cwd, ip, t, hCwd, hRun, hip.inum⟩
    have hSize := hFs.size_le i
    have hRead : ∀ (off n : Nat), wp (readiKernel ip off n) E (fun r u => u = t ∧
        r = (((t.files i).found off n : Int), (t.files i).slice off ((t.files i).found off n))) t := readiKernel_slice hFs hip
    have hClose := hFile.close ip i t hOpen
    have hLoads := fun (r tf tr : Nat) (fs : Kernel) => loadSegments_lays (E := E) r tf tr (k := fs.setFs t) hFs hip
    generalize hv : t.files i = v at hSame hSize hRead
    simp only [wp_bind, wp_onFs, Kernel.setFs_fs]
    refine wp_post (hRead 0 elfhdrSize) ?_
    rintro ⟨got, elf⟩ u ⟨rfl, hGot⟩
    obtain ⟨rfl, rfl⟩ := Prod.mk.inj hGot
    simp only [setFs_setFs]
    split
    · -- the exit before there is a table
      simp only [wp_bind, wp_onFs, Kernel.setFs_fs, setFs_setFs, wp_pure]
      exact wp_post hClose fun _ fs hfs => ⟨k.mem, fs, rfl, hfs, Restored.refl _⟩
    rename_i hHeader
    rw [not_or, not_not, not_not] at hHeader
    have hFull : v.found 0 elfhdrSize = elfhdrSize := by omega
    rw [hFull] at hHeader ⊢
    have hInside : elfhdrSize ≤ v.size := by
      have := found_full hFull (by decide)
      omega
    obtain ⟨ρ, hρ⟩ := hk.spaces
    have hFrame : ρ (k.proc me).trapframe = .frame me := hρ.frame me (hk.live me hMe).2
    have htf := hρ.typed.pageable_frame hFrame
    simp only [wp_bind, wp_read, wp_onMem, Kernel.setFs_mem, Kernel.setFs_trampoline]
    refine wp_post (procPagetable_spec hρ.typed hρ.tramp.1 htf) ?_
    rintro x m1 (⟨rfl, ht1, -, -, hPage⟩ | ⟨hpos, hFree, ρ1, ht1, hExt, hTable⟩)
    · rw [if_pos rfl]
      simp only [wp_bind, wp_onFs, wp_pure, Kernel.setMem_fs, Kernel.setFs_fs]
      exact wp_post hClose fun _ fs hfs => ⟨m1, fs, rfl, hfs, restored_of_roles hρ.typed ht1 hPage⟩
    rw [if_neg hpos]
    have hVacant := vacant_of_free hρ.typed hFree
    have hBuild : Building x (k.proc me).trapframe k.trampoline 0 m1 ρ1 :=
      ⟨ht1, hTable, Nat.zero_le _, fun v hv => absurd hv (Nat.not_lt_zero v)⟩
    rw [wp_bind]
    refine wp_post (hLoads x (k.proc me).trapframe k.trampoline k _ _ (Laid.nil hBuild)) ?_
    rintro ⟨ok, sz⟩ k2 ⟨m2, ρ2, rfl, hTouch2, hBuild2, hOk⟩
    have hTouch := hExt.touches.trans hTouch2
    cases ok with
    | false =>
      simp only [Bool.false_eq_true, if_false, wp_bind, wp_onMem, wp_onFs, wp_pure, Kernel.setMem_mem, Kernel.setMem_fs, Kernel.setFs_fs]
      refine wp_post (procFreepagetable_spec hBuild2.typed hBuild2.table hBuild2.size) ?_
      rintro - m3 ⟨ρ3, ht3, hTouch3, hVacant3⟩
      exact wp_post hClose fun _ fs hfs => ⟨m3, fs, rfl, hfs,
        restored_of_vacant hρ.typed ht3 (hTouch.trans hTouch3) hVacant hVacant3⟩
    | true =>
      obtain ⟨hAccepted, hsz, hLaid⟩ := hOk rfl
      simp only [Kernel.setFs_fs, hv, List.nil_append] at hAccepted hsz hLaid
      subst hsz
      rw [if_pos rfl]
      simp only [wp_bind, wp_onFs, Kernel.setMem_fs, Kernel.setFs_fs]
      refine wp_post hClose ?_
      intro _ fs hfs
      simp only [wp_onMem, Kernel.setMem_mem, Kernel.setFs_mem]
      refine wp_post (stackPages_spec hLaid) ?_
      rintro sz1 m3 ⟨ρ3, hTouch3, hStack⟩
      by_cases hZero : sz1 = 0
      · rw [if_pos hZero]
        obtain ⟨-, hBuild3⟩ | ⟨hTop, -⟩ := hStack
        · simp only [wp_bind, wp_onMem, wp_pure, Kernel.setMem_mem]
          refine wp_post (procFreepagetable_spec hBuild3.typed hBuild3.table hBuild3.size) ?_
          rintro - m4 ⟨ρ4, ht4, hTouch4, hVacant4⟩
          exact ⟨m4, fs, rfl, hfs, restored_of_vacant hρ.typed ht4 ((hTouch.trans hTouch3).trans hTouch4) hVacant hVacant4⟩
        · rw [imageTop] at hTop
          omega
      · obtain ⟨hEq, -⟩ | ⟨rfl, hPrepared⟩ := hStack
        · exact absurd hEq hZero
        rw [if_neg hZero, wp_pure]
        exact ⟨m3, fs, rfl, hfs, i, ρ, ρ3, hFinds, by rw [← hSame]; rfl, by rw [← hSame]; rfl, by
          rw [← hSame]
          exact ⟨hρ, hFree, hTouch.trans hTouch3, hPrepared, ⟨hInside, hHeader.2⟩, hAccepted⟩⟩

end

/-! ## Committing -/

structure Executed (k : Kernel) (me : Pid) (path : Text) (argv : List Text) (v : Node) (sp : Nat) (k' : Kernel) :
    Prop where
  header : elfhdrSize ≤ v.size ∧ magic v = elfMagic
  accepted : Accepted v (phnum v) (phoff v % 2 ^ 32)
  proc : ∃ x, k'.proc me = { k.proc me with name := lastElem path, pagetable := x, sz := imageTop (taken v) }
  others : ∀ j, j ≠ me → k'.proc j = k.proc j
  mapped : ∀ p < npages (extent (taken v)), k'.mem.MappedUser (k'.proc me).pagetable p
  byte : ∀ va, va / 4096 < npages (extent (taken v)) →
    k'.mem.logical (k'.proc me).pagetable (k'.proc me).sz va = some (image v (taken v) va)
  perm : ∀ p < npages (extent (taken v)), ∃ s, mapper (taken v) p = some s ∧
    (k'.mem.view (k'.proc me).pagetable p).has pteW = s.writable ∧ (k'.mem.view (k'.proc me).pagetable p).has pteX = s.executable
  guard : ¬ k'.mem.MappedUser (k'.proc me).pagetable (npages (extent (taken v)))
  args : ∃ as, ArgumentsAt k'.mem (k'.proc me).pagetable (k'.proc me).sz ((npages (extent (taken v)) + 1) * 4096) argv sp as
  frame : k'.mem.page (k.proc me).trapframe =
    (((k.mem.page (k.proc me).trapframe).putLE 120 8 sp).putLE 24 8 (Elf.entry v)).putLE 48 8 sp
  freed : ∀ p, k.mem.TablePage (k.proc me).pagetable p ∨
    (∃ u < trapframeVpn, (k.mem.view (k.proc me).pagetable u).has pteV ∧ p = pte2pa (k.mem.view (k.proc me).pagetable u)) →
      p ∈ k'.mem.freelist

section

variable {E : Stop → Prop} {k : Kernel} {A : List Nat} {me : Pid} {path : Text} {argv : List Text} {v : Node} {x : Nat}
  {m : Mem} {ρ ρ' : Roles}

lemma imageTop_eq (segs : List Segment) : imageTop segs = (npages (extent segs) + 1 + 1) * 4096 := by
  rw [imageTop]

lemma Ready.ne_old (h : Ready k A me v x m ρ ρ') (hk : Owned k A) (hMe : (k.proc me).state ≠ .unused) :
    x ≠ (k.proc me).pagetable ∧ ρ (k.proc me).pagetable = .table (k.proc me).pagetable 2 0 := by
  have hOld := (h.spaced.table me (hk.live me hMe).1).root
  refine ⟨?_, hOld⟩
  rintro rfl
  exact Role.noConfusion (h.fresh.symm.trans hOld)

lemma free_of_vacant {m' : Mem} {q p : Nat} (ht' : Typed m' ρ') (hTouch : Touches q m ρ m' ρ') (hVacant : Vacant ρ' q)
    (hp : (ρ p).Of q) : p ∈ m'.freelist := by
  rw [← ht'.free]
  apply hVacant
  obtain ⟨hRole, -⟩ | ⟨-, hOf⟩ := hTouch.page p
  · rwa [hRole]
  · exact hOf

lemma seen_setPage {r tf tr b p : Nat} (sz : Nat) (ht : Typed m ρ) (hr : UserTable m ρ r tf tr b) (hp : (ρ p).Plain) (pg : Page) :
    (∀ u, (m.setPage p pg).view r u = m.view r u) ∧ ∀ va, (m.setPage p pg).logical r sz va = m.logical r sz va := by
  have hView : ∀ u, (m.setPage p pg).view r u = m.view r u := plain_view ht hp (fun q hq => setPage_page_of_ne m pg hq) hr.root
  refine ⟨hView, fun va => logical_congr (hView _) fun hMapped => setPage_page_of_ne m pg ?_⟩
  rintro rfl
  have hLow := hr.lt_of_user hMapped.lt hMapped.2.1 hMapped.2.2
  rw [(hr.user _ (lt_of_lt_of_le hLow hr.bound) hMapped.2.1).2] at hp
  exact hp

lemma Ready.executed {m1 : Mem} {sp : Nat} {as : List Nat} {k' : Kernel} (h : Ready k A me v x m ρ ρ')
    (hPushed : Pushed x (k.proc me).trapframe k.trampoline (imageTop (taken v)) (npages (extent (taken v)) + 1) (imageTop (taken v)) m ρ' m1)
    (hArgs : ArgumentsAt m1 x (imageTop (taken v)) ((npages (extent (taken v)) + 1) * 4096) argv sp as)
    (hProc : k'.proc me = { k.proc me with name := lastElem path, pagetable := x, sz := imageTop (taken v) })
    (hOthers : ∀ j, j ≠ me → k'.proc j = k.proc j) (hView : ∀ u, k'.mem.view x u = m1.view x u)
    (hLogical : ∀ va, k'.mem.logical x (imageTop (taken v)) va = m1.logical x (imageTop (taken v)) va)
    (hFrame : k'.mem.page (k.proc me).trapframe =
      (((k.mem.page (k.proc me).trapframe).putLE 120 8 sp).putLE 24 8 (Elf.entry v)).putLE 48 8 sp)
    (hFreed : ∀ p, k.mem.TablePage (k.proc me).pagetable p ∨
      (∃ u < trapframeVpn, (k.mem.view (k.proc me).pagetable u).has pteV ∧ p = pte2pa (k.mem.view (k.proc me).pagetable u)) →
        p ∈ k'.mem.freelist) :
    Executed k me path argv v sp k' := by
  have hRoot : (k'.proc me).pagetable = x := by rw [hProc]
  have hSize : (k'.proc me).sz = imageTop (taken v) := by rw [hProc]
  have hBound := h.prepared.stack.table.bound
  rw [npages_imageTop] at hBound
  have hSame : ∀ p < npages (extent (taken v)), k'.mem.view x p = m.view x p := by
    intro p hp
    rw [hView, hPushed.served.view p (vpn_lt (by omega)) (h.prepared.mapped p hp).2.1]
  refine ⟨h.header, h.accepted, ⟨x, hProc⟩, hOthers, ?_, ?_, ?_, ?_, ?_, hFrame, hFreed⟩ <;> rw [hRoot]
  · exact fun p hp => (mappedUser_congr (hSame p hp)).mpr (h.prepared.mapped p hp)
  · intro va hva
    rw [hSize, hLogical, hPushed.frame va (.inl (by omega)), h.prepared.byte va hva]
  · intro p hp
    rw [hSame p hp]
    exact h.prepared.perm p hp
  · intro hMapped
    obtain ⟨hV, hU⟩ := h.prepared.guard
    have hNot := hMapped.2.2
    rw [hView, hPushed.served.view _ (vpn_lt (by omega)) hV, hU] at hNot
    cases hNot
  · rw [hSize]
    refine ⟨as, hArgs.length, hArgs.aligned, ?_, fun a ha => ?_, hArgs.above, hArgs.bounds, hArgs.apart⟩
    · rw [← hArgs.array]
      exact bytesAt_congr fun va _ _ => hLogical va
    · rw [← hArgs.strings a ha]
      exact bytesAt_congr fun va _ _ => hLogical va

lemma execFinish_spec (hk : Owned k A) (hMe : (k.proc me).state ≠ .unused) (h : Ready k A me v x m ρ ρ') (fs : FsState)
    (path : Text) (hLen : ∀ s ∈ argv, s.length + 1 < 2 ^ 31) (hArgc : argv.length < maxarg) :
    wp (execFinish me path argv x (imageTop (taken v)) (Elf.entry v)) E (fun r k' =>
      r = -1 ∧ 4096 < stackRoom argv ∧ (∃ m', k' = (k.setMem m').setFs fs ∧ Restored k.mem m') ∨
      r = argv.length ∧ stackRoom argv ≤ 4096 ∧ k'.fs = fs ∧ (k'.proc me).pagetable = x ∧
        ∃ sp < 2 ^ 64, Executed k me path argv v sp k') ((k.setMem m).setFs fs) := by
  have hStack := h.prepared.stack
  rw [imageTop_eq] at hStack
  unfold execFinish
  simp only [wp_bind, wp_getProc, wp_onMem, Kernel.setFs_proc, Kernel.setMem_proc, Kernel.setFs_mem, Kernel.setMem_mem]
  rw [imageTop_eq]
  refine wp_post (placeArgs_exact _ hStack hLen hArgc) ?_
  rintro (_ | sp) m1 ⟨hPushed, hRes⟩
  · dsimp only at hRes ⊢
    simp only [execBad, wp_bind, wp_onMem, wp_pure, Kernel.setMem_mem]
    have hSize := h.prepared.size
    rw [imageTop_eq] at hSize
    refine wp_post (procFreepagetable_spec hPushed.served.typed hPushed.served.table hSize) ?_
    rintro - m2 ⟨ρ2, ht2, hTouch2, hVacant2⟩
    refine .inl ⟨trivial, hRes, m2, rfl, ?_⟩
    exact restored_of_vacant h.spaced.typed ht2 ((h.touches.trans hPushed.served.touches).trans hTouch2)
      (vacant_of_free h.spaced.typed h.fresh) hVacant2
  · dsimp only at hRes ⊢
    obtain ⟨hRoom, hsp, hArgs⟩ := hRes
    have hOld := hk.live me hMe
    obtain ⟨hne, hRoot⟩ := h.ne_old hk hMe
    obtain ⟨m2, hm2⟩ : ∃ m2, m2 = m1.setPage (k.proc me).trapframe
        (((Bytes.putLE (m1.page (k.proc me).trapframe) 120 8 sp).putLE 24 8 (Elf.entry v)).putLE 48 8 sp) := ⟨_, rfl⟩
    rw [← imageTop_eq] at hPushed hArgs hsp
    simp only [wp_bind, wp_onMem, setEntry, wp_update, wp_modProc, wp_pure, Kernel.setMem_mem, Kernel.setProc_mem,
      Kernel.setMem_proc, Kernel.setFs_proc]
    simp only [← hm2, ← imageTop_eq]
    -- the trapframe belongs to neither of the two spaces
    have hTouch1 := h.touches.trans hPushed.served.touches
    have hFrame0 : ρ (k.proc me).trapframe = .frame me := h.spaced.frame me hOld.2
    obtain ⟨hFrame1, hPage1⟩ := hTouch1.keep hFrame0 (by exact id)
    have hSpaces1 := (h.spaced.new_extra h.fresh h.touches h.prepared.stack.typed).touch_extra
      (h.spaced.typed.toAlloc.pos_of_role (p := x) (by rw [h.fresh]; exact Role.noConfusion)).1 hPushed.served.touches hPushed.served.typed
    have hSpaces2 := hSpaces1.store_plain (p := (k.proc me).trapframe) (by rw [hFrame1]; trivial)
      (((Bytes.putLE (m1.page (k.proc me).trapframe) 120 8 sp).putLE 24 8 (Elf.entry v)).putLE 48 8 sp)
    have hSeen := seen_setPage (imageTop (taken v)) hPushed.served.typed hPushed.served.table (p := (k.proc me).trapframe)
      (by rw [hFrame1]; trivial) (((Bytes.putLE (m1.page (k.proc me).trapframe) 120 8 sp).putLE 24 8 (Elf.entry v)).putLE 48 8 sp)
    rw [← hm2] at hSpaces2 hSeen
    have hTable2 : UserTable m2 ρ' x (k.proc me).trapframe k.trampoline (npages (imageTop (taken v))) := by
      have hOther : ∀ q, q ≠ (k.proc me).trapframe → m2.page q = m1.page q := by
        intro q hq
        rw [hm2]
        exact setPage_page_of_ne m1 _ hq
      have hPlain := hPushed.served.table.plain hPushed.served.typed (c := ρ' (k.proc me).trapframe) (by rw [hFrame1]; trivial)
        (by rw [hFrame1]; trivial) hOther
      rw [Function.update_eq_self] at hPlain
      exact hPlain
    refine wp_post (procFreepagetable_spec hSpaces2.typed (hSpaces2.table me hOld.1) (hSpaces2.size me)) ?_
    rintro - m3 ⟨ρ3, ht3, hTouch3, hVacant3⟩
    refine .inr ⟨trivial, hRoom, rfl, ?_, sp, ?_, h.executed hPushed hArgs ?_ ?_ ?_ ?_ ?_ ?_⟩
    · exact congrArg Proc.pagetable (setProc_proc_same ..)
    · have hSize := h.prepared.size
      rw [trapframeVa_eq] at hSize
      omega
    · exact setProc_proc_same ..
    · exact fun j hj => setProc_proc_of_ne _ hj
    · intro u
      exact (hTouch3.view_eq hSpaces2.typed hTable2.root hne u).trans (hSeen.1 u)
    · intro va
      exact (hTouch3.logical hSpaces2.typed hTable2 hne va).trans (hSeen.2 va)
    · have hFrame3 := (hTouch3.keep hFrame1 (by exact id)).2
      refine hFrame3.trans ?_
      rw [hm2, setPage_page_same, hPage1]
    · intro p hp
      have hRole : ∃ c, ρ p = c ∧ c.Of (k.proc me).pagetable ∧ ¬ c.Of x := by
        rcases hp with hTable | ⟨u, hu, hV, rfl⟩
        · obtain ⟨l, a, hRole⟩ := (h.spaced.typed.toTrees.tablePage_iff hRoot).mp hTable
          exact ⟨_, hRole, rfl, hne.symm⟩
        · exact ⟨_, ((h.spaced.table me hOld.1).user u hu hV).2, rfl, hne.symm⟩
      obtain ⟨c, hRole, hOf, hNot⟩ := hRole
      refine free_of_vacant ht3 hTouch3 hVacant3 ?_
      rw [(hTouch1.keep hRole hNot).1]
      exact hOf

lemma kexec_outcome {Open : Ip → Nat → FsState → Prop} {Closed : FsState → Prop} (hk : Owned k A) (hMe : (k.proc me).state ≠ .unused)
    (hAccess : ∀ cwd, (k.proc me).cwd = some cwd → Access E cwd path k.fs Open Closed) (hNone : (k.proc me).cwd = none → Closed k.fs)
    (hLen : ∀ s ∈ argv, s.length + 1 < 2 ^ 31) (hArgc : argv.length < maxarg) :
    wp (kexec me path argv) E (fun r k' => Closed k'.fs ∧
      (r = -1 ∧ (∃ m fs, k' = (k.setMem m).setFs fs ∧ Restored k.mem m) ∨
      r = argv.length ∧ ∃ i, Finds k me path i ∧ ∃ sp < 2 ^ 64, Executed k me path argv (k.fs.files i) sp k')) k := by
  rw [kexec_eq]
  apply wp_call (execLoad_spec hk hMe hAccess hNone)
  rintro (_ | ⟨x, sz, entry⟩) k1 ⟨m, fs, rfl, hClosed, hRes⟩
  · rw [wp_pure]
    exact ⟨hClosed, .inl ⟨rfl, m, fs, rfl, hRes⟩⟩
  · obtain ⟨i, ρ, ρ', hFinds, hsz, hEntry, hReady⟩ := hRes
    dsimp only
    rw [hsz, hEntry]
    apply wp_post (execFinish_spec hk hMe hReady fs path hLen hArgc)
    rintro r k' (⟨rfl, -, m', rfl, hRestored⟩ | ⟨rfl, -, hfs, -, hDone⟩)
    · exact ⟨hClosed, .inl ⟨rfl, m', fs, rfl, hRestored⟩⟩
    · exact ⟨by rw [hfs]; exact hClosed, .inr ⟨rfl, i, hFinds, hDone⟩⟩

end

end Xv6K230
