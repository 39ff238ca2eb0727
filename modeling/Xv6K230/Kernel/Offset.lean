import Xv6K230.Kernel.File
import Xv6K230.Fs.Table
import Xv6K230.Fs.Transfer
import Xv6K230.Fs.Check
import Xv6K230.Lib.Code

/-! # Processes that share an open file

`fileread` and `filewrite` on an inode, cut into the parts between which other processes run.
-/

namespace Xv6K230.Offset

open Fs Prog

/-! ## The calls in sections -/

/-- User memory that a write copies from: a copy of `l` bytes at `k` succeeds, or it fails
after the first `short k l` bytes. -/
structure Source where
  byte : Nat → UInt8
  short : Nat → Nat → Option Nat

def Source.copyin (b : Source) (k l : Nat) : Text × Bool :=
  match b.short k l with
  | none => ((List.range l).map fun j => b.byte (k + j), true)
  | some j => ((List.range (min j l)).map fun j => b.byte (k + j), false)

def Source.shift (b : Source) (i : Nat) : Source := ⟨fun k => b.byte (i + k), fun k => b.short (i + k)⟩

/-- The part of `filewrite` between `begin_op` and `end_op`. -/
def filewriteChunk (f : Fp) (src : CopyIn) (n : Nat) : KM Int := do
  let v ← getFile f
  onFs (ilock v.ip)
  let v ← getFile f
  let r ← onFs (writei v.ip src v.off n)
  if r > 0 then modFile f fun v => { v with off := (v.off + r.toNat) % 2 ^ 32 }
  onFs (iunlock v.ip)
  return r

/-- `sys_open` with `O_TRUNC` on an inode it has found. -/
def truncAt (ip : Ip) : FsM Unit := do
  ilock ip
  itrunc ip
  iunlock ip

/-- `other` stands for what the rest of the kernel does. -/
inductive Section : Type → Type where
  | file (f : Fp) : Section File
  | panic (e : Stop) : Section Int
  | beginOp : Section Unit
  | endOp : Section Unit
  | read (f : Fp) (copy : Nat → Text → Bool) (n : Nat) : Section (Int × Text)
  | write (f : Fp) (src : Source) (n : Nat) : Section Int
  | trunc (ip : Ip) : Section Unit
  | other (k : Kernel) : Section Unit

def Section.run : (β : Type) → Section β → KM β
  | _, .file f => getFile f
  | _, .panic e => Prog.stop e
  | _, .beginOp => onFs Fs.beginOp
  | _, .endOp => onFs Fs.endOp
  | _, .read f copy n => filereadInode f copy n
  | _, .write f src n => filewriteChunk f src.copyin n
  | _, .trunc ip => onFs (truncAt ip)
  | _, .other k => Prog.update fun _ => k

open Code

def readCode (f : Fp) (copy : Nat → Text → Bool) (n : Int32) (other : Int) : Code Section Int := do
  let v ← section_ (.file f)
  if !v.readable then
    return -1
  else
    match v.type with
    | .pipe | .device => return other
    | .inode => return (← section_ (.read f copy n.toUInt32.toNat)).1
    | .none => section_ (.panic .fileread)

def writeLoop (f : Fp) (src : Source) (n : Nat) : (fuel i : Nat) → Code Section Int
  | 0, i => return if i = n then n else -1
  | fuel + 1, i =>
    if i < n then do
      section_ .beginOp
      let r ← section_ (.write f (src.shift i) (min (n - i) ((maxopblocks - 1 - 1 - 2) / 2 * bsize)))
      section_ .endOp
      if r ≠ (min (n - i) ((maxopblocks - 1 - 1 - 2) / 2 * bsize) : Nat) then return -1
      else writeLoop f src n fuel (i + min (n - i) ((maxopblocks - 1 - 1 - 2) / 2 * bsize))
    else
      return if i = n then n else -1

def writeCode (f : Fp) (src : Source) (n : Int32) (other : Int) : Code Section Int := do
  let v ← section_ (.file f)
  if !v.writable then
    return -1
  else
    match v.type with
    | .pipe | .device => return other
    | .inode => if n < 0 then return -1 else writeLoop f src n.toInt.toNat n.toInt.toNat 0
    | .none => section_ (.panic .filewrite)

lemma Source.copyin_shift (b : Source) (i : Nat) : (b.shift i).copyin = fun k => b.copyin (i + k) := by
  funext k l
  unfold copyin shift
  simp only [Nat.add_assoc]

lemma getFile_onFs {α β : Type} (f : Fp) (m : File → FsM α) (g : File → α → KM β) :
    (do let v ← getFile f; let a ← onFs (m v); g v a) =
      (do let v ← getFile f; let a ← onFs (m v); let v ← getFile f; g v a) := by
  funext k
  change Prog.seq (onFs (m (k.ftable f))) _ k = Prog.seq (onFs (m (k.ftable f))) _ k
  unfold Prog.seq onFs Prog.zoom
  cases m (k.ftable f) k.fs with
  | ok p => rfl
  | error e => rfl

lemma onFs_getFile {α β : Type} (f : Fp) (m : FsM α) (g : File → α → KM β) :
    (do let v ← getFile f; let a ← onFs m; g v a) = (do let a ← onFs m; let v ← getFile f; g v a) := by
  rw [getFile_onFs f fun _ => m]
  rfl

/-- `filewrite` reads the offset under the lock of the inode; alone, it may as well read it before. -/
lemma filewriteLoop_succ (f : Fp) (src : CopyIn) (n fuel i : Nat) (hi : i < n) :
    filewriteLoop f src n (fuel + 1) i = (do
      onFs beginOp
      let r ← filewriteChunk f (fun k => src (i + k)) (min (n - i) ((maxopblocks - 1 - 1 - 2) / 2 * bsize))
      onFs endOp
      if r ≠ (min (n - i) ((maxopblocks - 1 - 1 - 2) / 2 * bsize) : Nat) then return -1
      else filewriteLoop f src n fuel (i + min (n - i) ((maxopblocks - 1 - 1 - 2) / 2 * bsize))) := by
  rw [filewriteLoop, if_pos hi, onFs_getFile]
  unfold filewriteChunk
  simp only [bind_assoc, ite_bind, pure_bind]
  congr 1
  funext _
  rw [getFile_onFs f fun v => ilock v.ip]

/-! ## Processes on one file -/

structure Transfer where
  write : Bool
  start : Nat
  bytes : Text
  deriving DecidableEq

def Transfer.range (c : Transfer) : Set Nat := Set.Ico c.start (c.start + c.bytes.length)

structure Track where
  kernel : Kernel
  log : List Transfer

/-- What a section that returns `b` has transferred through file `f`. -/
def Section.moved (f : Fp) (k : Kernel) : {β : Type} → Section β → β → List Transfer
  | _, .read g _ _, (r, bytes) => if g = f ∧ r > 0 then [⟨false, (k.ftable f).off, bytes⟩] else []
  | _, .write g src _, r =>
    if g = f ∧ r > 0 then [⟨true, (k.ftable f).off, (List.range r.toNat).map src.byte⟩] else []
  | _, _, _ => []

def Section.exec (f : Fp) (β : Type) (l : Section β) : Prog Stop Track β := fun s =>
  match l.run _ s.kernel with
  | .ok (b, k) => .ok (b, ⟨k, s.log ++ l.moved f s.kernel b⟩)
  | .error e => .error e

inductive Call where
  | read (f : Fp) (copy : Nat → Text → Bool) (n : Int32) (other : Int)
  | write (f : Fp) (src : Source) (n : Int32) (other : Int)
  | trunc (ip : Ip)
  | other (k : Kernel)

/-- A process makes one call after another; a call starts with the result of the last one. -/
def Call.code : Call → Int → Code Section Int
  | .read f copy n r, _ => readCode f copy n r
  | .write f src n r, _ => writeCode f src n r
  | .trunc ip, _ => do
    section_ .beginOp
    section_ (.trunc ip)
    section_ .endOp
    return 0
  | .other k, _ => do
    section_ (.other k)
    return 0

structure Opened (f : Fp) (k : Kernel) : Prop where
  consistent : Consistent k.fs
  type : (k.ftable f).type = .inode
  ref : 0 < (k.fs.itable (k.ftable f).ip).ref

/-- The rest of the kernel keeps the file system consistent, and of the file that is open it
changes neither the inode nor the offset. -/
structure Leaves (f : Fp) (k k' : Kernel) : Prop where
  opened : Opened f k'
  ip : (k'.ftable f).ip = (k.ftable f).ip
  off : (k'.ftable f).off = (k.ftable f).off
  inum : (k'.fs.itable (k.ftable f).ip).inum = (k.fs.itable (k.ftable f).ip).inum

def allowed (f : Fp) : (β : Type) → Track → Section β → Prop
  | _, s, .other k => Leaves f s.kernel k
  | _, _, _ => True

abbrev Sys (P : Type) : Type 1 := Pool Section Track P Int

structure Sys.Fresh {P : Type} (f : Fp) (off : Nat) (s : Sys P) : Prop where
  opened : Opened f s.shared.kernel
  offset : (s.shared.kernel.ftable f).off = off
  log : s.shared.log = []
  idle : s.Idle

abbrev Sys.Reaches {P : Type} [DecidableEq P] (f : Fp) (off : Nat) : Sys P → Prop :=
  Transition.Reachable (Sys.Fresh f off) (fun s a t => Pool.next (Section.exec f) Call.code s a = some t)
    (Pool.Admits (C := Call) (allowed f))

/-- The file behind `f`. -/
def content (f : Fp) (k : Kernel) : Node := k.fs.files (k.fs.itable (k.ftable f).ip).inum

/-! ## What a section does -/

variable {s t u : FsState} {k k' : Kernel} {f g : Fp} {ip : Ip}

structure Keeps (s t : FsState) : Prop where
  consistent : Consistent t
  ref : ∀ ip, (t.itable ip).ref = (s.itable ip).ref
  inum : ∀ ip, (t.itable ip).inum = (s.itable ip).inum

lemma Keeps.refl (h : Consistent s) : Keeps s s := ⟨h, fun _ => rfl, fun _ => rfl⟩

lemma ilock_view (h : Consistent s) : wp (ilock ip) (fun _ => True)
    (fun _ t => 0 < (s.entries ip).ref ∧ View t s.sb (lockedTable s.entries ip) s.files) s := by
  by_cases hRef : 0 < (s.entries ip).ref
  · apply wp_post (ilock_spec (fun _ _ _ => trivial) ⟨h, rfl, rfl, rfl⟩ hRef fun _ _ => trivial)
    rintro _ t ⟨-, -, hView, -⟩
    exact ⟨hRef, hView⟩
  · have hLess : (s.itable ip).ref < 1 := by
      have : ¬ 0 < (s.itable ip).ref := hRef
      omega
    unfold ilock
    rw [wp_bind, wp_getInode, if_pos hLess]
    exact (wp_stop _).mpr trivial

lemma lockedTable_loaded {sb : Superblock} {e : Ip → Entry} {n : Nat → Node} (h : View t sb (lockedTable e ip) n)
    (hRef : 0 < (e ip).ref) : Loaded t ip (e ip).inum := by
  have hAt : lockedTable e ip ip = { e ip with locked := true, valid := true } := Function.update_self ..
  have hLoaded := h.loaded (by rw [hAt]; exact hRef) (by rw [hAt])
  rwa [hAt] at hLoaded

lemma iunlock_keeps {n : Nat → Node} (h : View t s.sb (lockedTable s.entries ip) n) (hRef : 0 < (s.entries ip).ref) :
    wp (iunlock ip) (fun _ => True) (fun _ u => Keeps s u ∧ u.files = n) t := by
  have hAt : lockedTable s.entries ip ip = { s.entries ip with locked := true, valid := true } := Function.update_self ..
  apply wp_post (iunlock_spec (fun _ _ _ => trivial) h (by rw [hAt]; exact hRef))
  rintro _ u ⟨-, hu⟩
  have hEntry : ∀ jp, (u.entries jp).ref = (s.entries jp).ref ∧ (u.entries jp).inum = (s.entries jp).inum := by
    intro jp
    rw [hu.entries]
    unfold unlockedTable lockedTable
    by_cases hj : jp = ip
    · subst hj
      simp
    · simp [Function.update_of_ne hj]
  exact ⟨⟨hu.consistent, fun jp => (hEntry jp).1, fun jp => (hEntry jp).2⟩, hu.files⟩

/-- File `g` after a transfer of `n` bytes. -/
def advance (k : Kernel) (g : Fp) (n : Nat) : Kernel := k.setFile g { k.ftable g with off := (k.ftable g).off + n }

lemma advance_zero (k : Kernel) (g : Fp) : (advance k g 0).ftable = k.ftable := by
  funext h
  by_cases hg : h = g
  · rw [hg]
    exact setFile_ftable_same ..
  · exact setFile_ftable_of_ne _ hg

lemma advance_same (k : Kernel) (g : Fp) (n : Nat) :
    (advance k g n).ftable g = { k.ftable g with off := (k.ftable g).off + n } := setFile_ftable_same ..

lemma advance_offset {α : Type} {r : Int} {m : KM α} {Q : α → Kernel → Prop} (hr : 0 < r → (k.ftable g).off + r.toNat ≤ 268 * 1024)
    (hm : ∀ k', k'.fs = k.fs → k'.ftable = (advance k g r.toNat).ftable → wp m (fun _ => True) Q k') :
    wp (if r > 0 then do
        modFile g fun v => { v with off := (v.off + r.toNat) % 2 ^ 32 }
        m
      else m) (fun _ => True) Q k := by
  rw [wp_ite]
  constructor
  · intro hPos
    rw [wp_bind, wp_modFile]
    have hMod : ((k.ftable g).off + r.toNat) % 2 ^ 32 = (k.ftable g).off + r.toNat := by
      apply Nat.mod_eq_of_lt
      have := hr hPos
      omega
    rw [hMod]
    exact hm (advance k g r.toNat) rfl rfl
  · intro hNeg
    apply hm k rfl
    rw [Int.toNat_of_nonpos (by omega), advance_zero]

lemma filereadInode_spec (h : Consistent k.fs) (copy : Nat → Text → Bool) (n : Nat) :
    wp (filereadInode g copy n) (fun _ => True) (fun r k' => Keeps k.fs k'.fs ∧ k'.fs.files = k.fs.files ∧
      k'.ftable = (advance k g r.1.toNat).ftable ∧ (0 < r.1 → r.2 = (content g k).slice (k.ftable g).off r.1.toNat)) k := by
  unfold filereadInode
  simp only [wp_bind, wp_getFile, wp_onFs]
  apply wp_post (ilock_view h)
  rintro _ t ⟨hRef, hView⟩
  have hLoaded := lockedTable_loaded hView hRef
  have hNode : t.files (k.fs.entries (k.ftable g).ip).inum = content g k := by rw [hView.files]; rfl
  apply wp_post (readi_slice hView.consistent hLoaded copy (k.ftable g).off n)
  rintro ⟨r, bytes⟩ u ⟨rfl, hr⟩
  rw [hNode] at hr
  have hMax : (content g k).size ≤ 268 * 1024 := h.size_le _
  have hFits : 0 < r → (k.ftable g).off + r.toNat ≤ 268 * 1024 ∧ bytes = (content g k).slice (k.ftable g).off r.toNat := by
    intro hPos
    rcases hr with ⟨hNeg, -⟩ | hr
    · simp only at hNeg
      omega
    · obtain ⟨rfl, rfl⟩ := Prod.mk.inj hr
      refine ⟨?_, by rw [Int.toNat_natCast]⟩
      rw [Int.toNat_natCast]
      unfold Node.found at hPos ⊢
      split at hPos <;> rename_i hOut
      · exact absurd hPos (by decide)
      · rw [if_neg hOut]
        omega
  simp only
  refine advance_offset ?_ ?_
  · exact fun hPos => (hFits hPos).1
  intro k' hFs hTable
  rw [wp_bind, wp_onFs, hFs]
  apply wp_post (iunlock_keeps hView hRef)
  rintro _ v ⟨hKeeps, hFiles⟩
  exact wp_val ⟨hKeeps, hFiles, hTable, fun hPos => (hFits hPos).2⟩

lemma Source.supplies (b : Source) : Supplies b.copyin b.byte := by
  intro k l hOk
  unfold copyin at hOk ⊢
  cases hShort : b.short k l with
  | some j =>
    rw [hShort] at hOk
    cases hOk
  | none => simp only [List.take_of_length_le, List.length_map, List.length_range, le_refl]

lemma filewriteChunk_spec (h : Consistent k.fs) (src : Source) (n : Nat) :
    wp (filewriteChunk g src.copyin n) (fun _ => True) (fun r k' => Keeps k.fs k'.fs ∧
      k'.ftable = (advance k g r.toNat).ftable ∧ (∀ x < (k.ftable g).off, (content g k').data x = (content g k).data x) ∧
      (content g k').slice (k.ftable g).off r.toNat = (List.range r.toNat).map src.byte) k := by
  unfold filewriteChunk
  simp only [wp_bind, wp_getFile, wp_onFs]
  apply wp_post (ilock_view h)
  rintro _ t ⟨hRef, hView⟩
  have hLoaded := lockedTable_loaded hView hRef
  have hNode : t.files (k.fs.entries (k.ftable g).ip).inum = content g k := by rw [hView.files]; rfl
  apply wp_post (writei_moves (fun _ _ => trivial) hView.consistent hLoaded src.copyin (k.ftable g).off n)
  intro r u hu
  rw [hNode] at hu
  obtain ⟨v, hAlters, hFits, hBelow, hBytes⟩ : ∃ v, Alters t u (k.fs.entries (k.ftable g).ip).inum v ∧
      (0 < r → (k.ftable g).off + r.toNat ≤ 268 * 1024) ∧ (∀ x < (k.ftable g).off, v.data x = (content g k).data x) ∧
      v.slice (k.ftable g).off r.toNat = (List.range r.toNat).map src.byte := by
    rcases hu with ⟨rfl, hAlters⟩ | ⟨tot, d, rfl, -, hMax, hMoved, hAlters⟩
    · exact ⟨_, hAlters, fun hPos => absurd hPos (by decide), fun _ _ => rfl, rfl⟩
    · have hHigh : tot ≤ max n 0 := hMoved.high
      rw [Int.toNat_natCast]
      refine ⟨_, hAlters, fun _ => by omega, hMoved.below, ?_⟩
      apply List.map_congr_left
      intro j hj
      exact hMoved.bytes src.byte src.supplies j (Nat.zero_le _) (List.mem_range.mp hj)
  refine advance_offset hFits ?_
  intro k' hFs hTable
  rw [wp_bind, wp_onFs, hFs]
  apply wp_post (iunlock_keeps (hView.of_alters hAlters) hRef)
  rintro _ w ⟨hKeeps, hFiles⟩
  have hIp : (k'.ftable g).ip = (k.ftable g).ip := by
    rw [hTable, advance_same]
    rfl
  have hContent : content g (k'.setFs w) = v := by
    unfold content
    change w.files (w.itable (k'.ftable g).ip).inum = v
    rw [hIp, hKeeps.inum, hFiles]
    exact Function.update_self ..
  rw [wp_pure, hContent]
  exact ⟨hKeeps, hTable, hBelow, hBytes⟩

lemma truncAt_keeps (h : Consistent s) : wp (truncAt ip) (fun _ => True) (fun _ u => Keeps s u) s := by
  unfold truncAt
  apply wp_call (ilock_view h)
  rintro _ t ⟨hRef, hView⟩
  apply wp_call (itrunc_spec (fun _ _ => trivial) hView.consistent (lockedTable_loaded hView hRef))
  rintro _ u ⟨hAlters, -⟩
  apply wp_post (iunlock_keeps (hView.of_alters hAlters) hRef)
  rintro _ w ⟨hKeeps, -⟩
  exact hKeeps

lemma Keeps.of_view {n : Nat → Node} (h : View t s.sb s.entries n) : Keeps s t :=
  ⟨h.consistent, fun ip => congrArg Entry.ref (h.entry ip), fun ip => congrArg Entry.inum (h.entry ip)⟩

/-! ## The ranges of the transfers -/

def Consecutive : Nat → List Transfer → Prop
  | _, [] => True
  | off, c :: l => c.start = off ∧ Consecutive (off + c.bytes.length) l

def total (l : List Transfer) : Nat := (l.map fun c => c.bytes.length).sum

lemma Consecutive.snoc {c : Transfer} : ∀ {l : List Transfer} {off : Nat}, Consecutive off l → c.start = off + total l →
    Consecutive off (l ++ [c])
  | [], _, _, hc => ⟨hc, trivial⟩
  | d :: l, off, h, hc => by
    refine ⟨h.1, Consecutive.snoc h.2 (hc.trans ?_)⟩
    simp only [total, List.map_cons, List.sum_cons]
    omega

lemma Consecutive.bounds {c : Transfer} : ∀ {l : List Transfer} {off : Nat}, Consecutive off l → c ∈ l →
    off ≤ c.start ∧ c.start + c.bytes.length ≤ off + total l
  | d :: l, off, h, hc => by
    simp only [total, List.map_cons, List.sum_cons]
    rcases List.mem_cons.mp hc with rfl | hc
    · rw [h.1]
      omega
    · have hRest := Consecutive.bounds h.2 hc
      unfold total at hRest
      omega

lemma Consecutive.disjoint : ∀ {l : List Transfer} {off : Nat}, Consecutive off l →
    l.Pairwise fun c d => Disjoint c.range d.range
  | [], _, _ => .nil
  | c :: l, off, h => by
    refine .cons (fun d hd => ?_) (Consecutive.disjoint h.2)
    have hBounds := (Consecutive.bounds h.2 hd).1
    unfold Transfer.range
    rw [Set.Ico_disjoint_Ico, h.1]
    omega

/-! ## Runs -/

lemma Leaves.of_keeps (h : Opened f k) (hKeeps : Keeps k.fs k'.fs) (hTable : k'.ftable f = k.ftable f) : Leaves f k k' where
  opened := by
    refine ⟨hKeeps.consistent, by rw [hTable]; exact h.type, ?_⟩
    rw [hTable, hKeeps.ref]
    exact h.ref
  ip := by rw [hTable]
  off := by rw [hTable]
  inum := hKeeps.inum _

structure Carries (f : Fp) (k k' : Kernel) (l : List Transfer) : Prop where
  keeps : Keeps k.fs k'.fs
  table : k'.ftable = (advance k f (total l)).ftable
  below : ∀ x < (k.ftable f).off, (content f k').data x = (content f k).data x
  moved : l = [] ∨ ∃ c, l = [c] ∧ c.start = (k.ftable f).off ∧ (content f k').slice c.start c.bytes.length = c.bytes

def Section.Through (f : Fp) : {β : Type} → Section β → Prop
  | _, .read g _ _ => g = f
  | _, .write g _ _ => g = f
  | _, _ => False

lemma content_advance {n : Nat} (hKeeps : Keeps k.fs k'.fs) (hTable : k'.ftable = (advance k g n).ftable)
    (hFiles : k'.fs.files = k.fs.files) : content g k' = content g k := by
  unfold content
  rw [hTable, advance_same, hFiles, hKeeps.inum]

lemma read_carries (h : Consistent k.fs) {copy : Nat → Text → Bool} {n : Nat} {b : Int × Text}
    (hRun : filereadInode f copy n k = .ok (b, k')) : Carries f k k' ((Section.read f copy n).moved f k b) := by
  obtain ⟨r, bytes⟩ := b
  obtain ⟨hKeeps, hFiles, hTable, hBytes⟩ := wp_ok (filereadInode_spec h copy n) hRun
  have hContent := content_advance hKeeps hTable hFiles
  simp only at hTable hBytes
  unfold Section.moved
  simp only [true_and]
  by_cases hPos : r > 0
  · have hLength : bytes.length = r.toNat := by rw [hBytes hPos, Node.length_slice]
    rw [if_pos hPos]
    refine ⟨hKeeps, ?_, fun x _ => by rw [hContent], .inr ⟨_, rfl, rfl, ?_⟩⟩
    · simpa [total, hLength] using hTable
    · simp only [hContent, hLength]
      exact (hBytes hPos).symm
  · rw [if_neg hPos]
    rw [Int.toNat_of_nonpos (by omega)] at hTable
    exact ⟨hKeeps, hTable, fun x _ => by rw [hContent], .inl rfl⟩

lemma write_carries (h : Consistent k.fs) {src : Source} {n : Nat} {r : Int}
    (hRun : filewriteChunk f src.copyin n k = .ok (r, k')) : Carries f k k' ((Section.write f src n).moved f k r) := by
  obtain ⟨hKeeps, hTable, hBelow, hBytes⟩ := wp_ok (filewriteChunk_spec h src n) hRun
  unfold Section.moved
  simp only [true_and]
  by_cases hPos : r > 0
  · rw [if_pos hPos]
    refine ⟨hKeeps, ?_, hBelow, .inr ⟨_, rfl, rfl, ?_⟩⟩
    · simpa [total] using hTable
    · simpa using hBytes
  · rw [if_neg hPos]
    rw [Int.toNat_of_nonpos (by omega)] at hTable
    exact ⟨hKeeps, hTable, hBelow, .inl rfl⟩

lemma Section.effect (h : Opened f k) {β : Type} (l : Section β) {b : β} (log : List Transfer) (hAllowed : allowed f β ⟨k, log⟩ l)
    (hRun : l.run _ k = .ok (b, k')) :
    (Leaves f k k' ∧ l.moved f k b = [] ∧ ¬ l.Through f) ∨ Carries f k k' (l.moved f k b) := by
  have hView : View k.fs k.fs.sb k.fs.entries k.fs.files := ⟨h.consistent, rfl, rfl, rfl⟩
  cases l with
  | file g =>
    cases hRun
    exact .inl ⟨.of_keeps h (.refl h.consistent) rfl, rfl, id⟩
  | panic e => cases hRun
  | beginOp =>
    have hSpec : wp (onFs Fs.beginOp) (fun _ => True) (fun _ k' => Leaves f k k') k :=
      (wp_onFs _).mpr (wp_post (beginOp_spec (fun _ _ _ => trivial) hView) fun _ _ ht => .of_keeps h (.of_view ht) rfl)
    exact .inl ⟨wp_ok (Q := fun _ k' => Leaves f k k') hSpec hRun, rfl, id⟩
  | endOp =>
    have hSpec : wp (onFs Fs.endOp) (fun _ => True) (fun _ k' => Leaves f k k') k :=
      (wp_onFs _).mpr (wp_post (endOp_spec hView) fun _ _ ht => .of_keeps h (.of_view ht) rfl)
    exact .inl ⟨wp_ok (Q := fun _ k' => Leaves f k k') hSpec hRun, rfl, id⟩
  | read g copy n =>
    by_cases hg : g = f
    · subst hg
      exact .inr (read_carries h.consistent hRun)
    · obtain ⟨hKeeps, -, hTable, -⟩ := wp_ok (filereadInode_spec h.consistent copy n) hRun
      refine .inl ⟨.of_keeps h hKeeps ?_, if_neg fun hc => hg hc.1, hg⟩
      rw [hTable]
      exact setFile_ftable_of_ne _ (Ne.symm hg)
  | write g src n =>
    by_cases hg : g = f
    · subst hg
      exact .inr (write_carries h.consistent hRun)
    · obtain ⟨hKeeps, hTable, -⟩ := wp_ok (filewriteChunk_spec h.consistent src n) hRun
      refine .inl ⟨.of_keeps h hKeeps ?_, if_neg fun hc => hg hc.1, hg⟩
      rw [hTable]
      exact setFile_ftable_of_ne _ (Ne.symm hg)
  | trunc ip =>
    have hSpec : wp (onFs (truncAt ip)) (fun _ => True) (fun _ k' => Leaves f k k') k :=
      (wp_onFs _).mpr (wp_post (truncAt_keeps h.consistent) fun _ _ ht => .of_keeps h ht rfl)
    exact .inl ⟨wp_ok (Q := fun _ k' => Leaves f k k') hSpec hRun, rfl, id⟩
  | other k1 =>
    cases hRun
    exact .inl ⟨hAllowed, rfl, id⟩

structure Sound (f : Fp) (off : Nat) (s : Track) : Prop where
  opened : Opened f s.kernel
  offset : (s.kernel.ftable f).off = off + total s.log
  ranges : Consecutive off s.log

lemma exec_ok {β : Type} {l : Section β} {s t : Track} {b : β} (h : l.exec f β s = .ok (b, t)) :
    l.run _ s.kernel = .ok (b, t.kernel) ∧ t.log = s.log ++ l.moved f s.kernel b := by
  unfold Section.exec at h
  split at h
  · rename_i b' k hRun
    cases h
    exact ⟨hRun, rfl⟩
  · cases h

namespace Sound

variable {off : Nat} {s t : Track}

lemma of_leaves (h : Sound f off s) (hLeaves : Leaves f s.kernel t.kernel) (hLog : t.log = s.log) : Sound f off t where
  opened := hLeaves.opened
  offset := by rw [hLeaves.off, hLog, h.offset]
  ranges := by rw [hLog]; exact h.ranges

lemma of_carries {l : List Transfer} (h : Sound f off s) (hc : Carries f s.kernel t.kernel l) (hLog : t.log = s.log ++ l) :
    Sound f off t := by
  have hFile : t.kernel.ftable f = { s.kernel.ftable f with off := (s.kernel.ftable f).off + total l } := by
    rw [hc.table, advance_same]
  refine ⟨⟨hc.keeps.consistent, ?_, ?_⟩, ?_, ?_⟩
  · rw [hFile]
    exact h.opened.type
  · rw [hFile, hc.keeps.ref]
    exact h.opened.ref
  · rw [hFile, hLog]
    simp only [h.offset, total, List.map_append, List.sum_append]
    omega
  · rw [hLog]
    rcases hc.moved with rfl | ⟨c, rfl, hStart, -⟩
    · rw [List.append_nil]
      exact h.ranges
    · exact h.ranges.snoc (hStart.trans h.offset)

lemma step (h : Sound f off s) {β : Type} {l : Section β} {b : β} (hAllowed : allowed f β s l) (hRun : l.exec f β s = .ok (b, t)) :
    Sound f off t := by
  obtain ⟨hRun, hLog⟩ := exec_ok hRun
  rcases l.effect h.opened s.log hAllowed hRun with ⟨hLeaves, hMoved, -⟩ | hCarries
  · rw [hMoved, List.append_nil] at hLog
    exact h.of_leaves hLeaves hLog
  · exact h.of_carries hCarries hLog

lemma of_reaches {P : Type} [DecidableEq P] {s : Sys P} (h : s.Reaches f off) : Sound f off s.shared := by
  apply h.invariant (I := fun s => Sound f off s.shared)
  · intro s hs
    refine ⟨hs.opened, ?_, ?_⟩
    · rw [hs.offset, hs.log]
      rfl
    · rw [hs.log]
      trivial
  · intro s a t hs hAdmits ht
    exact Pool.shared_next (fun _ l _ b t hI hAllowed hRun => hI.step hAllowed hRun) hs hAdmits ht

end Sound

/-! ## Two writers -/

namespace OffsetSample

def f0 : Fp := ⟨0, by decide⟩

def fs : FsState := Sample.fs.setInode ip0 ⟨rootdev, 2, 1, false, false, Dinode.zero⟩

lemma fs_consistent : Consistent fs := Sample.fs_consistent.enter (fun _ => rfl) _ (by decide) _

def kernel : Kernel where
  mem := ⟨0, 0, [], fun _ => Bytes.fill 0⟩
  fs := fs
  trampoline := 0
  kpgtbl := 0
  ftable := fun _ => ⟨.inode, 2, true, true, 0, ip0, 0, 0⟩
  pipes := fun _ => ⟨0, 0, false, false, Bytes.fill 0⟩
  proc := fun _ => ⟨.unused, none, false, 0, 0, none, 0, 0, 0, fun _ => none, none, [], none⟩
  nextpid := 1
  initproc := none

def start : Sys Bool := ⟨⟨kernel, []⟩, fun _ => .done 0⟩

lemma start_fresh : start.Fresh f0 0 where
  opened := ⟨fs_consistent, rfl, by decide⟩
  offset := rfl
  log := rfl
  idle := fun _ => ⟨0, rfl⟩

def bytes (l : Text) : Source := ⟨fun k => l.getD k 0, fun _ _ => none⟩

/-- Both processes are in a call to `filewrite`, and their sections alternate. -/
def acts : List (Pool.Act Bool Call) :=
  [.start true (.write f0 (bytes [7, 8, 9]) 3 0), .start false (.write f0 (bytes [1, 2]) 2 0), .step true, .step false, .step false,
    .step true, .step false, .step true, .step true, .step false]

/-- The process is not about to take a step of the rest of the kernel. -/
def check (s : Sys Bool) : Pool.Act Bool Call → Bool
  | .start _ _ => true
  | .step p =>
    match s.proc p with
    | .call (.other _) _ => false
    | _ => true

lemma admits_of_check {s : Sys Bool} {a : Pool.Act Bool Call} (h : check s a = true) : Pool.Admits (allowed f0) s a := by
  cases a with
  | start p c => trivial
  | step p =>
    cases hc : s.proc p with
    | done r =>
      simp only [Pool.Admits, hc]
    | call l k =>
      simp only [check, hc] at h
      simp only [Pool.Admits, hc]
      cases l <;> trivial

end OffsetSample

/-- Any number of processes read and write through one open file, in chunks that interleave with
each other and with everything else. The chunks that move bytes are consecutive and disjoint from
the initial offset on, the offset counts them all, no chunk touches a byte that an earlier one has
transferred, and a chunk moves exactly the bytes of its range. -/
theorem no_lost_update {P : Type} [DecidableEq P] {off : Nat} {s : Sys P} (h : s.Reaches f off) :
    (s.shared.kernel.ftable f).off = off + total s.shared.log ∧
    Consecutive off s.shared.log ∧
    (s.shared.log.Pairwise fun c d => Disjoint c.range d.range) ∧
    ∀ (β : Type) (l : Section β), l.Through f → ∀ b t, l.exec f β s.shared = .ok (b, t) →
      (∀ c ∈ s.shared.log, (content f t.kernel).slice c.start c.bytes.length =
        (content f s.shared.kernel).slice c.start c.bytes.length) ∧
      (t.log = s.shared.log ∨ ∃ c, t.log = s.shared.log ++ [c] ∧ c.start = (s.shared.kernel.ftable f).off ∧
        (content f t.kernel).slice c.start c.bytes.length = c.bytes) := by
  have hSound := Sound.of_reaches h
  refine ⟨hSound.offset, hSound.ranges, hSound.ranges.disjoint, ?_⟩
  intro β l hThrough b t hRun
  obtain ⟨hRun, hLog⟩ := exec_ok hRun
  have hAllowed : allowed f β s.shared l := by
    cases l <;> trivial
  rcases l.effect hSound.opened s.shared.log hAllowed hRun with ⟨-, -, hNot⟩ | hCarries
  · exact absurd hThrough hNot
  · constructor
    · intro c hc
      have hBounds := hSound.ranges.bounds hc
      have hOffset := hSound.offset
      apply List.map_congr_left
      intro j hj
      have hj' := List.mem_range.mp hj
      exact hCarries.below _ (by omega)
    · grind [hCarries.moved]

open OffsetSample in
theorem no_lost_update_writers : ∃ s : Sys Bool, s.Reaches f0 0 ∧
    s.shared.log = [⟨true, 0, [1, 2]⟩, ⟨true, 2, [7, 8, 9]⟩] ∧ (s.shared.kernel.ftable f0).off = 0 + total s.shared.log ∧
    s.shared.log.Pairwise fun c d => Disjoint c.range d.range := by
  obtain ⟨s, hs, hTest⟩ : ∃ s : Sys Bool, s.Reaches f0 0 ∧ (s.shared.log == [⟨true, 0, [1, 2]⟩, ⟨true, 2, [7, 8, 9]⟩]) = true :=
    Transition.Reachable.exists_of_checked_run (fun _ _ _ ht => ht) acts (fun _ _ _ => admits_of_check) (.start start_fresh) (by decide +kernel)
  exact ⟨s, hs, beq_iff_eq.mp hTest, (no_lost_update hs).1, (no_lost_update hs).2.2.1⟩

end Xv6K230.Offset
