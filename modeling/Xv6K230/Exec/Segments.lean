import Xv6K230.Exec.Files

/-! # The segments of an executed file

What a successful `kexec` says about the file: the contents of memory, the permissions of its
pages, and where header table and segments lie in the file.
-/

namespace Xv6K230

open Vm Fs Riscv Prog Elf Names

namespace Elf

def TableInside (v : Node) : Prop := phnum v = 0 ∨ phoff v + proghdrSize * phnum v ≤ v.size

instance (v : Node) : Decidable (TableInside v) := inferInstanceAs (Decidable (_ ∨ _))

def RangesInside (v : Node) : Prop := ∀ s ∈ segments v, 0 < s.filesz → s.off + s.filesz ≤ v.size

def Unnarrowed (v : Node) : Prop :=
  (phnum v = 0 ∨ phoff v < 2 ^ 32) ∧ ∀ s ∈ segments v, 0 < s.filesz → s.off < 2 ^ 32 ∧ s.filesz < 2 ^ 32

section

variable {v : Node}

lemma segments_eq (hSize : v.size < 2 ^ 32) (hOff : phnum v = 0 ∨ phoff v < 2 ^ 32)
    (h : Accepted v (phnum v) (phoff v % 2 ^ 32)) : segments v = (scanned v (phnum v) (phoff v % 2 ^ 32)).filter (·.type = 1) := by
  unfold segments
  rcases hOff with hZero | hLt
  · rw [hZero]
    rfl
  · rw [Nat.mod_eq_of_lt hLt] at h ⊢
    rw [h.scanned_eq hSize]

/-- The segments that are loaded are those of the file, if its header table is where `kexec` looks for it. -/
lemma taken_eq (hSize : v.size < 2 ^ 32) (hOff : phnum v = 0 ∨ phoff v < 2 ^ 32) (h : Accepted v (phnum v) (phoff v % 2 ^ 32)) :
    taken v = (segments v).map .narrow := by
  rw [segments_eq hSize hOff h]
  rfl

lemma admitted (hSize : v.size < 2 ^ 32) (hOff : phnum v = 0 ∨ phoff v < 2 ^ 32) (h : Accepted v (phnum v) (phoff v % 2 ^ 32)) :
    ∀ s ∈ segments v, Admitted v s := by
  intro s hs
  obtain ⟨hMem, hType⟩ := List.mem_filter.mp hs
  obtain ⟨i, hi, rfl⟩ := List.mem_map.mp hMem
  have hi := List.mem_range.mp hi
  rw [Nat.mod_eq_of_lt (by omega)] at h
  exact (h.header hSize i hi).2 (of_decide_eq_true hType)

lemma TableInside.unnarrowed (hSize : v.size < 2 ^ 32) (h : TableInside v) : phnum v = 0 ∨ phoff v < 2 ^ 32 := by
  unfold TableInside at h
  omega

/-- For a file that `kexec` accepts, being inside the file and not being narrowed is the same. -/
lemma inside_iff (hSize : v.size < 2 ^ 32) (h : Accepted v (phnum v) (phoff v % 2 ^ 32)) :
    TableInside v ∧ RangesInside v ↔ Unnarrowed v := by
  constructor
  · rintro ⟨hTable, hRanges⟩
    refine ⟨hTable.unnarrowed hSize, fun s hs hPos => ?_⟩
    have := hRanges s hs hPos
    omega
  · rintro ⟨hOff, hFields⟩
    refine ⟨?_, fun s hs hPos => ?_⟩
    · rcases hOff with hZero | hLt
      · exact .inl hZero
      · rw [Nat.mod_eq_of_lt hLt] at h
        by_cases hZero : phnum v = 0
        · exact .inl hZero
        · have hLast := (h.header hSize (phnum v - 1) (by omega)).1
          rw [Nat.sub_add_cancel (by omega)] at hLast
          exact .inr hLast
    · obtain ⟨hOffLt, hLenLt⟩ := hFields s hs hPos
      have hInside := (admitted hSize hOff h s hs).inside
      rw [Segment.narrow, Nat.mod_eq_of_lt hOffLt, Nat.mod_eq_of_lt hLenLt] at hInside
      exact hInside hPos

end

end Elf

/-! ## Contents -/

section

variable {k k' : Kernel} {A : List Nat} {me : Pid} {path : Text} {argv : List Text} {i : Nat} {r : Int}

/-- After a successful `kexec` every segment that lies inside the file, apart from the others, is in memory: the bytes
of its file range and zeros after them. `loadseg` stores only to the addresses of the file range. -/
theorem exec_contents (h : ExecReady k A me) (hLen : ∀ s ∈ argv, s.length + 1 < 2 ^ 31) (hArgc : argv.length < maxarg)
    (hRun : kexec me path argv k = .ok (r, k')) (hr : r ≠ -1) (hi : Finds k me path i) (hTable : TableInside (k.fs.files i))
    (hRanges : RangesInside (k.fs.files i)) (hApart : (segments (k.fs.files i)).Pairwise Segment.Apart) :
    (∀ s ∈ segments (k.fs.files i),
      (∀ j < s.filesz, k'.mem.logical (k'.proc me).pagetable (k'.proc me).sz (s.vaddr + j) = some ((k.fs.files i).data (s.off + j))) ∧
      ∀ j, s.filesz ≤ j → j < s.memsz → k'.mem.logical (k'.proc me).pagetable (k'.proc me).sz (s.vaddr + j) = some 0) ∧
    ∀ (k : Kernel) (ip : Ip) (i x tf tr sz va offset len : Nat) (ρ : Roles) (ok : Bool) (k' : Kernel), Consistent k.fs →
      Loaded k.fs ip i → Building x tf tr sz k.mem ρ → va + len ≤ sz → offset < 2 ^ 32 →
      loadseg x va ip offset len k = .ok (ok, k') →
      (∀ a, ¬ (va ≤ a ∧ a < va + len) → k'.mem.logical x sz a = k.mem.logical x sz a) ∧
        ∀ p, (∀ u, k.mem.MappedUser x u → p ≠ pte2pa (k.mem.view x u)) → k'.mem.page p = k.mem.page p := by
  constructor
  · have hSize := h.consistent.size_le i
    obtain ⟨-, sp, -, hDone⟩ := h.executed hLen hArgc hRun hr hi
    generalize k.fs.files i = v at hTable hRanges hApart hSize hDone ⊢
    have hOff := hTable.unnarrowed (by omega)
    have hTaken := taken_eq (by omega) hOff hDone.accepted
    have hAdmitted := admitted (by omega) hOff hDone.accepted
    have hNarrow : (taken v).Pairwise Segment.Apart := by
      rw [hTaken]
      exact hApart.map _ fun _ _ hst => hst
    have hFile : ∀ s ∈ taken v, s.filesz ≤ s.memsz := by
      intro s hs
      rw [hTaken] at hs
      obtain ⟨t, ht, rfl⟩ := List.mem_map.mp hs
      exact le_trans (Nat.mod_le _ _) (hAdmitted t ht).file
    have hByte : ∀ s ∈ segments v, ∀ j < s.memsz, k'.mem.logical (k'.proc me).pagetable (k'.proc me).sz (s.vaddr + j) =
        some (if j < s.filesz then v.data (s.off + j) else 0) := by
      intro s hs j hj
      have hMem : s.narrow ∈ taken v := by
        rw [hTaken]
        exact List.mem_map_of_mem hs
      have hEnd : s.top ≤ extent (taken v) := top_le_extent (s := s.narrow) hMem
      have hTop : s.vaddr + j < extent (taken v) := lt_of_lt_of_le (Nat.add_lt_add_left hj s.vaddr) hEnd
      have hImage := image_apart (v := v) hFile hNarrow s.narrow hMem j hj
      have hFields : s.filesz % 2 ^ 32 = s.filesz ∧ (j < s.filesz → s.off % 2 ^ 32 = s.off) := by
        have := hRanges s hs
        omega
      rw [hDone.byte _ (page_lt hTop), show s.vaddr + j = s.narrow.vaddr + j from rfl, hImage]
      simp only [Segment.narrow, hFields.1]
      by_cases hIn : j < s.filesz
      · rw [if_pos hIn, if_pos hIn, hFields.2 hIn]
      · rw [if_neg hIn, if_neg hIn]
    intro s hs
    have hLe := (hAdmitted s hs).file
    refine ⟨fun j hj => ?_, fun j hLow hj => ?_⟩
    · rw [hByte s hs j (by omega), if_pos hj]
    · rw [hByte s hs j hj, if_neg (by omega)]
  · intro k ip i x tf tr sz va offset len ρ ok k' hFs hip hBuild hEnd hOffset hLoad
    have hStored := wp_ok (loadsegLoop_stores (E := fun _ => True) (k := k) hFs hip hEnd len 0 (le_refl _) (Nat.zero_le _) (.inl rfl)
      hOffset hBuild) hLoad
    obtain ⟨m', j, rfl, hj, hStores, hOthers, -⟩ := hStored
    refine ⟨fun a ha => ?_, hOthers⟩
    rw [Kernel.setMem_mem, hStores.logical, length_slice, if_neg (by omega)]

open ExecSample

/-- The two segments in one page: bytes 4 to 7 of the first are zero, and the second begins with its own bytes. -/
theorem exec_contents_shared : ∃ r k', kexec init pathA [[120], [121, 122]] kernel = .ok (r, k') ∧ r ≠ -1 ∧
    k'.mem.logical (k'.proc init).pagetable (k'.proc init).sz 3 = some 4 ∧
    k'.mem.logical (k'.proc init).pagetable (k'.proc init).sz 7 = some 0 ∧
    k'.mem.logical (k'.proc init).pagetable (k'.proc init).sz 16 = some 5 := by
  obtain ⟨k', hRun⟩ := kexec_returns.1
  have hr : (2 : Int) ≠ -1 := by decide
  have hSegments : segments (kernel.fs.files 2) = [⟨1, 5, 176, 0, 4, 8⟩, ⟨1, 6, 180, 16, 4, 12⟩] := by
    change segments (fs.files 2) = _
    decide +kernel
  have hTable : TableInside (kernel.fs.files 2) := by
    change TableInside (fs.files 2)
    decide +kernel
  have hSize : (fs.files 2).size = 184 := by decide +kernel
  have hRanges : RangesInside (kernel.fs.files 2) := by
    unfold RangesInside
    rw [hSegments, show (kernel.fs.files 2).size = 184 from hSize]
    decide
  have hBytes : (kernel.fs.files 2).data 179 = 4 ∧ (kernel.fs.files 2).data 180 = 5 := by
    change (fs.files 2).data 179 = 4 ∧ (fs.files 2).data 180 = 5
    decide +kernel
  have hAll := (exec_contents kernel_ready (by decide) (by decide) hRun hr kernel_finds.1 hTable hRanges
    (by rw [hSegments]; decide)).1
  rw [hSegments] at hAll
  have hFirst := hAll ⟨1, 5, 176, 0, 4, 8⟩ (by decide)
  have hSecond := hAll ⟨1, 6, 180, 16, 4, 12⟩ (by decide)
  refine ⟨_, k', hRun, hr, ?_, hFirst.2 7 (by decide) (by decide), ?_⟩
  · have hByte := hFirst.1 3 (by decide)
    rw [← hBytes.1]
    exact hByte
  · have hByte := hSecond.1 0 (by decide)
    rw [← hBytes.2]
    exact hByte

/-! ## Permissions -/

/-- Every page with a byte of a segment is mapped for the user, writable and executable as the segments in it ask,
and not writable if none of them does. -/
def Protected (m : Mem) (r : Nat) (segs : List Segment) : Prop :=
  (∀ s ∈ segs, ∀ p, s.Overlaps p → m.MappedUser r p ∧ (s.writable = true → (m.view r p).has pteW) ∧
    (s.executable = true → (m.view r p).has pteX)) ∧
  ∀ p, (∃ s ∈ segs, s.Overlaps p) → (∀ s ∈ segs, s.Overlaps p → s.writable = false) → (m.view r p).has pteW = false

/-- The first segment that ends beyond the start of a page has the rights that the segments in this page ask for. -/
def Permitted (segs : List Segment) : Prop :=
  ∀ p t, (∃ s ∈ segs, s.Overlaps p) → mapper segs p = some t →
    (∀ s ∈ segs, s.Overlaps p → (s.writable = true → t.writable = true) ∧ (s.executable = true → t.executable = true)) ∧
    (t.writable = true → ∃ s ∈ segs, s.Overlaps p ∧ s.writable = true)

/-- The `PT_LOAD` headers that `kexec` reads. -/
def Elf.read (v : Node) : List Segment := (scanned v (phnum v) (phoff v % 2 ^ 32)).filter (·.type = 1)

lemma mapper_narrow (segs : List Segment) (p : Nat) : mapper (segs.map .narrow) p = (mapper segs p).map .narrow := by
  unfold mapper
  rw [List.find?_map]
  rfl

lemma overlaps_lt {segs : List Segment} {s : Segment} {p : Nat} (hs : s ∈ segs) (h : s.Overlaps p) :
    p < npages (extent (segs.map .narrow)) := by
  have hTop : s.top ≤ extent (segs.map .narrow) := top_le_extent (s := s.narrow) (List.mem_map_of_mem hs)
  have hLow := h.2.1
  rw [npages]
  omega

/-- After a successful `kexec` the pages have the rights of their segments exactly if each was mapped for a segment
with these rights. -/
theorem exec_permissions (h : ExecReady k A me) (hLen : ∀ s ∈ argv, s.length + 1 < 2 ^ 31) (hArgc : argv.length < maxarg)
    (hRun : kexec me path argv k = .ok (r, k')) (hr : r ≠ -1) (hi : Finds k me path i) :
    Protected k'.mem (k'.proc me).pagetable (Elf.read (k.fs.files i)) ↔ Permitted (Elf.read (k.fs.files i)) := by
  obtain ⟨-, sp, -, hDone⟩ := h.executed hLen hArgc hRun hr hi
  generalize k.fs.files i = v at hDone ⊢
  have hTaken : taken v = (Elf.read v).map .narrow := rfl
  -- the rights of a page are those of the segment it was mapped for
  have hPage : ∀ s ∈ Elf.read v, ∀ p, s.Overlaps p → k'.mem.MappedUser (k'.proc me).pagetable p ∧ ∃ t, mapper (Elf.read v) p = some t ∧
      (k'.mem.view (k'.proc me).pagetable p).has pteW = t.writable ∧
      (k'.mem.view (k'.proc me).pagetable p).has pteX = t.executable := by
    intro s hs p hp
    have hLt := overlaps_lt hs hp
    rw [← hTaken] at hLt
    refine ⟨hDone.mapped p hLt, ?_⟩
    obtain ⟨t, ht, hPerm⟩ := hDone.perm p hLt
    rw [hTaken, mapper_narrow] at ht
    obtain ⟨u, hu, rfl⟩ := Option.map_eq_some_iff.mp ht
    exact ⟨u, hu, hPerm⟩
  constructor
  · rintro ⟨hRights, hReadOnly⟩ p t ⟨s, hs, hp⟩ ht
    obtain ⟨-, u, hu, hW, hX⟩ := hPage s hs p hp
    obtain rfl := Option.some.inj (ht.symm.trans hu)
    refine ⟨fun s' hs' hp' => ?_, fun hWritable => ?_⟩
    · grind
    · by_contra hNone
      have hNo := hReadOnly p ⟨s, hs, hp⟩ fun s' hs' hp' => Bool.eq_false_iff.mpr fun hs'' => hNone ⟨s', hs', hp', hs''⟩
      rw [hW, hWritable] at hNo
      cases hNo
  · intro hPermitted
    refine ⟨fun s hs p hp => ?_, ?_⟩
    · obtain ⟨hMapped, t, ht, hW, hX⟩ := hPage s hs p hp
      have hRights := (hPermitted p t ⟨s, hs, hp⟩ ht).1 s hs hp
      rw [hW, hX]
      exact ⟨hMapped, hRights⟩
    · rintro p ⟨s, hs, hp⟩ hReadOnly
      obtain ⟨-, t, ht, hW, -⟩ := hPage s hs p hp
      rw [hW, Bool.eq_false_iff]
      intro hWritable
      obtain ⟨s', hs', hp', hWrites⟩ := (hPermitted p t ⟨s, hs, hp⟩ ht).2 hWritable
      rw [hReadOnly s' hs' hp'] at hWrites
      cases hWrites

/-- A writable segment in the last page of an executable one is not writable. -/
theorem shared_page_not_writable : ∃ r k', kexec init pathA [[120], [121, 122]] kernel = .ok (r, k') ∧ r ≠ -1 ∧
    ExecReady kernel [] init ∧ Finds kernel init pathA 2 ∧
    ¬ Protected k'.mem (k'.proc init).pagetable (Elf.read (kernel.fs.files 2)) := by
  obtain ⟨k', hRun⟩ := kexec_returns.1
  have hr : (2 : Int) ≠ -1 := by decide
  have hSegments : Elf.read (kernel.fs.files 2) = [⟨1, 5, 176, 0, 4, 8⟩, ⟨1, 6, 180, 16, 4, 12⟩] := by
    change Elf.read (fs.files 2) = _
    decide +kernel
  refine ⟨_, k', hRun, hr, kernel_ready, kernel_finds.1, ?_⟩
  obtain ⟨-, sp, -, hDone⟩ := kernel_ready.executed (by decide) (by decide) hRun hr kernel_finds.1
  intro hProtected
  rw [hSegments] at hProtected
  have hWrite := (hProtected.1 ⟨1, 6, 180, 16, 4, 12⟩ (by decide) 0 (by decide)).2.1 (by decide)
  have hTaken : taken (kernel.fs.files 2) = [⟨1, 5, 176, 0, 4, 8⟩, ⟨1, 6, 180, 16, 4, 12⟩] := by
    change taken (fs.files 2) = _
    decide +kernel
  have hPerm := hDone.perm 0 (by rw [hTaken]; decide)
  rw [hTaken] at hPerm
  obtain ⟨s, hs, hW, -⟩ := hPerm
  obtain rfl := Option.some.inj hs
  rw [hWrite] at hW
  exact absurd hW (by decide)

/-- The segments of the second file share a page, which was mapped for the one that asks for more. -/
theorem exec_permissions_shared : ∃ r k', kexec init pathB [] kernel = .ok (r, k') ∧ r ≠ -1 ∧
    Protected k'.mem (k'.proc init).pagetable (Elf.read (kernel.fs.files 3)) := by
  obtain ⟨k', hRun⟩ := kexec_returns.2
  have hr : (0 : Int) ≠ -1 := by decide
  have hSegments : Elf.read (kernel.fs.files 3) = [⟨1, 5, 0, 0, 0, 8⟩, ⟨1, 4, 0, 16, 0, 8⟩] := by
    change Elf.read (fs.files 3) = _
    decide +kernel
  refine ⟨_, k', hRun, hr, (exec_permissions kernel_ready (by decide) (by decide) hRun hr kernel_finds.2).mpr ?_⟩
  rw [hSegments]
  rintro (- | p) t - ht
  · obtain rfl := Option.some.inj ht
    refine ⟨fun s hs _ => ?_, fun hWritable => absurd hWritable (by decide)⟩
    revert s
    decide
  · cases ht

/-! ## Offsets -/

/-- A file that `kexec` accepts has its header table and all its segments inside exactly if no offset or size is narrowed. -/
theorem exec_offsets (h : ExecReady k A me) (hLen : ∀ s ∈ argv, s.length + 1 < 2 ^ 31) (hArgc : argv.length < maxarg)
    (hRun : kexec me path argv k = .ok (r, k')) (hr : r ≠ -1) (hi : Finds k me path i) :
    TableInside (k.fs.files i) ∧ RangesInside (k.fs.files i) ↔ Unnarrowed (k.fs.files i) := by
  obtain ⟨-, sp, -, hDone⟩ := h.executed hLen hArgc hRun hr hi
  have hSize := h.consistent.size_le i
  exact inside_iff (by omega) hDone.accepted

/-- The header table of the second file is said to be at 2^32 + 64, far outside of it, and yet the file is executed. -/
theorem wide_offset_accepted : ∃ r k', kexec init pathB [] kernel = .ok (r, k') ∧ r ≠ -1 ∧ ExecReady kernel [] init ∧
    Finds kernel init pathB 3 ∧ phoff (kernel.fs.files 3) = 2 ^ 32 + 64 ∧ (kernel.fs.files 3).size = 176 ∧
    ¬ TableInside (kernel.fs.files 3) := by
  obtain ⟨k', hRun⟩ := kexec_returns.2
  have hFields : phoff (fs.files 3) = 2 ^ 32 + 64 ∧ (fs.files 3).size = 176 ∧ ¬ TableInside (fs.files 3) := by
    decide +kernel
  exact ⟨_, k', hRun, by decide, kernel_ready, kernel_finds.2, hFields⟩

theorem exec_offsets_shared : ∃ r k', kexec init pathA [[120], [121, 122]] kernel = .ok (r, k') ∧ r ≠ -1 ∧
    TableInside (kernel.fs.files 2) ∧ RangesInside (kernel.fs.files 2) := by
  obtain ⟨k', hRun⟩ := kexec_returns.1
  have hr : (2 : Int) ≠ -1 := by decide
  have hFields : Unnarrowed (fs.files 2) := by
    unfold Unnarrowed
    decide +kernel
  exact ⟨_, k', hRun, hr, (exec_offsets kernel_ready (by decide) (by decide) hRun hr kernel_finds.1).mpr hFields⟩

end

end Xv6K230
