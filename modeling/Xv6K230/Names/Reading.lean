import Xv6K230.Names.Storage
import Xv6K230.Pipe.Transfer
import Xv6K230.Console.Line

/-! # What a read stores

`sys_read` on a file, a pipe or the console, with the number of bytes that it stores in user memory.
-/

namespace Xv6K230.Names

open Fs Prog Offset

/-- A copy to the destination plus `k` succeeds if the destination has room for all of it from there on. -/
def fits (room : Nat → Nat) (k : Nat) (l : Text) : Bool := l.length ≤ room k

/-- The number of bytes that a read with this outcome has stored; a copy that fails stores what there is room for. -/
def storedBy (room : Nat → Nat) (r : Int × Text) : Nat :=
  if r.1 = -1 then r.2.length + room r.2.length else r.2.length

/-- The number of characters that `consoleread` stores before it sleeps or returns. -/
def consoleStored (u : ConsUser) (c : ConsCall) (s : Tty) : Nat :=
  if 0 < c.n then
    if s.cons.r = s.cons.w then 0
    else if s.cons.front = ctrl 'D' then 0
    else if u.copyout c.dst then
      if s.cons.front = lf then 1 else 1 + consoleStored u { c with dst := c.dst + 1, n := c.n - 1 } s.take
    else 0
  else 0
termination_by c.n.toNat

/-- A call of `consoleread` that runs once for every element of the list, with what it finds there: its
result (none while it sleeps) and the number of bytes stored. -/
def consoleTurns (c : ConsCall) : List (ConsUser × Tty) → Option Int × Nat
  | [] => (none, 0)
  | (u, s) :: rest =>
    let k := consoleStored u c s
    match (consoleread u c s).1 with
    | some r => (some r, k)
    | none =>
      let (r, l) := consoleTurns { c with dst := c.dst + k, n := c.n - k } rest
      (r, k + l)

def pipeTurns (c : PipeCall) : List (PipeUser × PipeLine) → Option Int × Nat
  | [] => (none, 0)
  | (u, s) :: rest =>
    let k := (piperead u c s).2.received.length - s.received.length
    match (piperead u c s).1 with
    | some r => (some r, k)
    | none =>
      let (r, l) := pipeTurns c rest
      (r, k + l)

def consoleMajor : Int16 := 1

structure Reader where
  pid : Nat
  addr : Nat
  room : Nat → Nat
  pipe : List (PipeUser × PipeLine)
  console : List (ConsUser × Tty)

/-- `fileread`: its result and the number of bytes stored. -/
def filereadStored (f : Fp) (o : Reader) (n : Int32) : KM (Option Int × Nat) := do
  let v ← getFile f
  if !v.readable then
    return (some (-1), 0)
  else
    match v.type with
    | .pipe => return pipeTurns ⟨o.pid, false, o.addr, n.toInt, 0⟩ o.pipe
    | .device =>
      -- `devsw` has a read function for the console only
      if v.major = consoleMajor then return consoleTurns ⟨o.pid, o.addr, n.toInt, n.toInt⟩ o.console else return (some (-1), 0)
    | .inode =>
      let r ← filereadInode f (fits o.room) n.toUInt32.toNat
      return (some r.1, storedBy o.room r)
    | .none => Prog.stop .fileread

def sysRead (me : Pid) (fd : Int32) (o : Reader) (n : Int32) : KM (Option Int × Nat) := do
  match ← argfd me fd with
  | none => return (some (-1), 0)
  | some (_, f) => filereadStored f o n

/-! ## The devices -/

section

lemma consoleStored_le (u : ConsUser) (c : ConsCall) (s : Tty) : consoleStored u c s ≤ c.n.toNat := by
  fun_induction consoleStored u c s with
  | case4 c s hn hne hEof hCopy hLine ih =>
    simp only at ih
    omega
  | _ => omega

lemma consoleTurns_le (l : List (ConsUser × Tty)) : ∀ c : ConsCall, (consoleTurns c l).2 ≤ c.n.toNat := by
  induction l with
  | nil => exact fun c => Nat.zero_le _
  | cons x rest ih =>
    grind [consoleStored_le, consoleTurns]

lemma pipereadLoop_received (u : PipeUser) (c : PipeCall) (i : Int) (s : PipeLine) (hi : 0 ≤ i) :
    (pipereadLoop u c i s).2.received.length ≤ s.received.length + (c.n - i).toNat := by
  fun_induction pipereadLoop u c i s with
  | case2 i s hn hne hCopy ih =>
    grind [PipeLine.take]
  | _ => simp

lemma piperead_received (u : PipeUser) (c : PipeCall) (s : PipeLine) :
    (piperead u c s).2.received.length ≤ s.received.length + c.n.toNat ∧
      ((piperead u c s).1 = none → (piperead u c s).2.received = s.received) := by
  unfold piperead
  split
  · grind [PipeLine.sleep]
  · have hLoop := pipereadLoop_received u c 0 s le_rfl
    refine ⟨?_, fun h => by cases h⟩
    simp only [PipeLine.wakeup]
    rwa [Int.sub_zero] at hLoop

lemma pipeTurns_le (c : PipeCall) (l : List (PipeUser × PipeLine)) : (pipeTurns c l).2 ≤ c.n.toNat := by
  induction l with
  | nil => exact Nat.zero_le _
  | cons x rest ih =>
    obtain ⟨u, s⟩ := x
    obtain ⟨hLess, hSleeps⟩ := piperead_received u c s
    simp only [pipeTurns]
    split
    · simp only
      omega
    · rename_i hNone
      rw [hSleeps hNone]
      simp only [Nat.sub_self, Nat.zero_add]
      exact ih

end

/-! ## Files -/

section

variable {s : FsState} {ip : Ip} {d : Dinode} {off n : Nat} {room : Nat → Nat}

lemma readiLoop_stored (E : Stop → Prop) (hE : ∀ e, E e) (ip : Ip) (room : Nat → Nat) (n : Nat) : ∀ fuel tot off acc (s : FsState),
    acc.length = tot → tot ≤ n → wp (readiLoop ip (fits room) n fuel tot off acc) E (fun r _ => storedBy room r ≤ n) s := by
  intro fuel
  induction fuel with
  | zero =>
    intro tot off acc s hAcc hTot
    refine wp_val ?_
    rw [storedBy, if_neg (by simp only; omega)]
    exact hAcc ▸ hTot
  | succ fuel ih =>
    intro tot off acc s hAcc hTot
    have hDone : storedBy room ((tot : Int), acc) ≤ n := by
      rw [storedBy, if_neg (by simp only; omega)]
      exact hAcc ▸ hTot
    unfold readiLoop
    rw [wp_ite]
    constructor
    · intro hLess
      apply wp_call (wp_mono (wp_true (bmap ip (off / bsize)) s) (fun e _ => hE e) fun _ _ h => h)
      intro a t _
      rw [wp_ite]
      refine ⟨fun _ => wp_val hDone, fun _ => ?_⟩
      rw [wp_bind, bread, wp_read, wp_ite]
      constructor
      · grind [List.length_append, Bytes.length_read]
      · intro hFails
        refine wp_val ?_
        simp only [fits, Bytes.length_read, decide_eq_true_eq] at hFails
        rw [storedBy, if_pos rfl]
        simp only [hAcc]
        omega
    · exact fun _ => wp_val hDone

lemma readi_stored (hd : (s.itable ip).di = d) (room : Nat → Nat) (off n : Nat) :
    wp (readi ip (fits room) off n) (fun _ => True) (fun r _ => storedBy room r ≤ (d.node s.disk).found off n) s := by
  obtain ⟨size, hSize⟩ : ∃ size, size = d.size.toNat := ⟨_, rfl⟩
  unfold readi Node.found
  rw [wp_bind, wp_getInode, hd, show (d.node s.disk).size = size from hSize.symm, ← hSize, wp_ite]
  constructor
  · intro hOut
    rw [if_pos (by omega)]
    exact wp_val (by rw [storedBy, if_neg (by simp)]; exact le_rfl)
  · intro hIn
    rw [if_neg (show ¬ (size < off ∨ (off + n) % 2 ^ 32 < off) by omega)]
    obtain ⟨k, hk⟩ : ∃ k, k = if off + n > size then size - off else n := ⟨_, rfl⟩
    have hkMin : k = min n (size - off) := by
      rw [hk]
      split <;> omega
    simp only [← hk, ← hkMin]
    exact readiLoop_stored _ (fun _ => trivial) ip room k k 0 off [] s rfl (Nat.zero_le _)

variable {k : Kernel} {g : Fp}

lemma filereadInode_stored (h : Consistent k.fs) (room : Nat → Nat) (n : Nat) :
    wp (filereadInode g (fits room) n) (fun _ => True)
      (fun r _ => storedBy room r ≤ (content g k).found (k.ftable g).off n) k := by
  unfold filereadInode
  simp only [wp_bind, wp_getFile, wp_onFs]
  apply wp_post (ilock_view h)
  rintro _ t ⟨hRef, hView⟩
  have hLoaded := lockedTable_loaded hView hRef
  have hNode : (t.inode (k.fs.entries (k.ftable g).ip).inum).node t.disk = content g k := by
    rw [← show t.files _ = _ from FsState.nodes_of_live (hView.consistent.live hLoaded), hView.files]
    rfl
  have hRead := readi_stored (hView.consistent.di hLoaded) room (k.ftable g).off n
  rw [hNode] at hRead
  apply wp_post hRead
  rintro ⟨r, bytes⟩ u hStored
  have hEnd : ∀ k' : Kernel, wp (do onFs (iunlock (k.ftable g).ip); return (r, bytes) : KM _) (fun _ => True)
      (fun r _ => storedBy room r ≤ (content g k).found (k.ftable g).off n) k' := fun k' => by
    rw [wp_bind]
    exact wp_post (wp_true _ k') fun _ _ _ => wp_val hStored
  simp only [wp_ite, wp_bind, wp_modFile] at hEnd ⊢
  exact ⟨fun _ => hEnd _, fun _ => hEnd _⟩

def Available (k : Kernel) (f : Fp) : Prop :=
  0 < (k.fs.itable (k.ftable f).ip).ref ∧ (k.fs.itable (k.ftable f).ip).valid = true ∧ (k.fs.itable (k.ftable f).ip).locked = false

lemma ilock_available (hRef : 0 < (s.itable ip).ref) (hValid : (s.itable ip).valid = true) (hUnlocked : (s.itable ip).locked = false) :
    wp (ilock ip) (fun _ => False) (fun _ t => t = s.setInode ip { s.itable ip with locked := true }) s := by
  unfold ilock acquiresleep
  rw [wp_bind, wp_getInode, if_neg (by omega), wp_bind, wp_bind, wp_getInode, hUnlocked, if_neg (by decide), wp_modInode, hValid,
    if_neg (by decide), wp_pure]
  exact congrArg (s.setInode ip) (by rw [← hValid])

lemma filereadInode_total (h : Consistent k.fs) (hOpen : Available k g) (copy : Nat → Text → Bool) (n : Nat) :
    wp (filereadInode g copy n) (fun _ => False) (fun r _ => (r.1 = -1 ∧ ∃ j l, copy j l = false) ∨
      r = (((content g k).found (k.ftable g).off n : Int), (content g k).slice (k.ftable g).off ((content g k).found (k.ftable g).off n))) k := by
  obtain ⟨hRef, hValid, hUnlocked⟩ := hOpen
  unfold filereadInode
  simp only [wp_bind, wp_getFile, wp_onFs]
  apply wp_post (wp_weaken_stop (wp_both (ilock_available hRef hValid hUnlocked) (ilock_view h)) fun _ he => he.1)
  rintro _ t ⟨ht, -, hView⟩
  have hLoaded := lockedTable_loaded hView hRef
  have hNode : t.files (k.fs.entries (k.ftable g).ip).inum = content g k := by rw [hView.files]; rfl
  apply wp_post (readi_slice hView.consistent hLoaded copy (k.ftable g).off n)
  rintro ⟨r, bytes⟩ u ⟨rfl, hr⟩
  rw [hNode] at hr
  have hEntry : (u.itable (k.ftable g).ip).locked = true ∧ 0 < (u.itable (k.ftable g).ip).ref := by
    have hAt : u.itable (k.ftable g).ip = { k.fs.itable (k.ftable g).ip with locked := true } := by
      rw [ht]
      exact if_pos rfl
    rw [hAt]
    exact ⟨rfl, hRef⟩
  have hEnd : wp (iunlock (k.ftable g).ip) (fun _ => False) (fun _ _ => True) u := by
    unfold iunlock releasesleep
    rw [wp_bind, wp_getInode, if_neg, wp_modInode]
    · trivial
    · grind
  simp only [wp_ite, wp_bind, wp_modFile, wp_onFs, wp_pure]
  exact ⟨fun _ => wp_post hEnd fun _ _ _ => hr, fun _ => wp_post hEnd fun _ _ _ => hr⟩

end

/-! ## The call -/

section

variable {k : Kernel} {me : Pid} {fd n : Int32}

/-- No read through descriptor `fd` stores more than `n` bytes, and the offset of a file moves by what is returned. -/
def ReadsWithin (k : Kernel) (me : Pid) (fd n : Int32) : Prop :=
  ∀ o r stored k', sysRead me fd o n k = .ok ((r, stored), k') → (stored : Int) ≤ max n.toInt 0 ∧
    ∀ d f, descriptor (k.proc me) fd = some (d, f) → (k.ftable f).type = .inode → (k.ftable f).readable = true →
      ∃ c : Int, r = some c ∧ (k'.ftable f).off = (k.ftable f).off + c.toNat

/-- The count is negative and, read as an unsigned number, does not carry the offset over the end of the
32-bit range, and there is something to read. -/
def Overreads (k : Kernel) (me : Pid) (fd n : Int32) : Prop :=
  ∃ d f, descriptor (k.proc me) fd = some (d, f) ∧ (k.ftable f).readable = true ∧ (k.ftable f).type = .inode ∧
    n.toInt < 0 ∧ (k.ftable f).off + n.toInt < 0 ∧ (k.ftable f).off < (content f k).size

lemma toNat_toUInt32 (n : Int32) : (n.toUInt32.toNat : Int) = n.toInt % 2 ^ 32 := by
  have hWord : n.toInt = (n.toUInt32.toNat : Int).bmod (2 ^ 32) := by
    rw [← Int32.toInt_toBitVec]
    exact BitVec.toInt_eq_toNat_bmod _
  have hLess := n.toUInt32.toNat_lt
  rw [hWord, Int.bmod_def]
  split <;> omega

lemma found_le (v : Node) (hSize : v.size ≤ 268 * 1024) (off : Nat) (n : Int32) :
    (v.found off n.toUInt32.toNat : Int) ≤ max n.toInt 0 ↔ ¬ (n.toInt < 0 ∧ off + n.toInt < 0 ∧ off < v.size) := by
  have hWord := toNat_toUInt32 n
  have hLow : -2 ^ 31 ≤ n.toInt := Int32.le_toInt n
  have hHigh : n.toInt < 2 ^ 31 := Int32.toInt_lt n
  unfold Node.found
  split <;> omega

lemma wp_sysRead_inode {E : Stop → Prop} {Q : Option Int × Nat → Kernel → Prop} {o : Reader} {d : Fd} {f : Fp}
    (hd : descriptor (k.proc me) fd = some (d, f)) (hReadable : (k.ftable f).readable = true) (hType : (k.ftable f).type = .inode) :
    wp (sysRead me fd o n) E Q k ↔
      wp (filereadInode f (fits o.room) n.toUInt32.toNat) E (fun r k' => Q (some r.1, storedBy o.room r) k') k := by
  unfold sysRead filereadStored
  rw [argfd_eq, wp_bind, wp_read, hd]
  dsimp only
  rw [wp_bind, wp_getFile, hReadable, if_neg (by decide), hType]
  dsimp only
  rw [wp_bind]
  simp only [wp_pure]

lemma storedBy_of_found (room : Nat → Nat) {c : Nat} {l : Text} (hl : l.length = c) : storedBy room ((c : Int), l) = c := by
  rw [storedBy, if_neg (by simp only; omega)]
  exact hl

lemma Overreads.not_within (h : Consistent k.fs)
    (hOpen : ∀ d f, descriptor (k.proc me) fd = some (d, f) → (k.ftable f).type = .inode → Available k f)
    (hOver : Overreads k me fd n) : ¬ ReadsWithin k me fd n := by
  intro hWithin
  obtain ⟨d, f, hd, hReadable, hType, hCount⟩ := hOver
  obtain ⟨c, hc⟩ : ∃ c, c = (content f k).found (k.ftable f).off n.toUInt32.toNat := ⟨_, rfl⟩
  obtain ⟨o, ho⟩ : ∃ o : Reader, o.room = fun _ => c + 1 := ⟨⟨0, 0, fun _ => c + 1, [], []⟩, rfl⟩
  have hRun : wp (sysRead me fd o n) (fun _ => False) (fun r _ => r.2 = c) k := by
    rw [wp_sysRead_inode hd hReadable hType]
    apply wp_post (wp_weaken_stop (wp_both (filereadInode_total h (hOpen d f hd hType) _ _) (filereadInode_stored h o.room _))
      fun _ he => he.1)
    rintro r t ⟨hr, hStored⟩
    rw [← hc] at hr hStored
    rcases hr with ⟨hFails, -⟩ | rfl
    · rw [storedBy, if_pos hFails, ho] at hStored
      simp only at hStored
      omega
    · exact storedBy_of_found o.room (by simp [Node.slice])
  obtain ⟨⟨r, stored⟩, k', hEq, hStored⟩ := wp_total hRun
  have hBound := (hWithin o r stored k' hEq).1
  rw [show stored = c from hStored, hc] at hBound
  exact (found_le _ (h.size_le _) _ n).mp hBound hCount

/-- `read` stores at most the bytes it was asked for, unless the count is negative and the offset of a file
is below its absolute value and below the end of the file. -/
theorem read_stores_within (h : Consistent k.fs)
    (hOpen : ∀ d f, descriptor (k.proc me) fd = some (d, f) → (k.ftable f).type = .inode → Available k f) :
    ReadsWithin k me fd n ↔ ¬ Overreads k me fd n := by
  refine ⟨fun hWithin hOver => hOver.not_within h hOpen hWithin, ?_⟩
  intro hNot o r stored k' hRun
  have hMax : ((n.toInt.toNat : Nat) : Int) = max n.toInt 0 := Int.toNat_eq_max n.toInt
  have hZero : ((0 : Nat) : Int) ≤ max n.toInt 0 := le_max_right ..
  cases hd : descriptor (k.proc me) fd with
  | none =>
    have hMain : wp (sysRead me fd o n) (fun _ => True) (fun res _ => res.2 = 0) k := by
      unfold sysRead
      rw [argfd_eq, wp_bind, wp_read, hd]
      exact wp_val rfl
    have hEnd := wp_ok hMain hRun
    simp only at hEnd
    rw [hEnd]
    exact ⟨hZero, fun d f hSome => by cases hSome⟩
  | some x =>
    obtain ⟨d, f⟩ := x
    by_cases hInode : (k.ftable f).readable = true ∧ (k.ftable f).type = .inode
    · obtain ⟨hReadable, hType⟩ := hInode
      have hMain : wp (sysRead me fd o n) (fun _ => True) (fun res k' =>
          (res.2 : Int) ≤ max n.toInt 0 ∧ ∃ c : Int, res.1 = some c ∧ (k'.ftable f).off = (k.ftable f).off + c.toNat) k := by
        rw [wp_sysRead_inode hd hReadable hType]
        apply wp_post (wp_and (filereadInode_spec h (fits o.room) _) (filereadInode_stored h o.room _))
        rintro res t ⟨⟨-, -, hTable, -⟩, hStored⟩
        refine ⟨?_, res.1, rfl, ?_⟩
        · have hFound := (found_le _ (h.size_le _) _ n).mpr fun hCount => hNot ⟨d, f, hd, hReadable, hType, hCount⟩
          exact (Int.ofNat_le.mpr hStored).trans hFound
        · rw [hTable, advance_same]
      have hEnd := wp_ok hMain hRun
      refine ⟨hEnd.1, ?_⟩
      intro d' f' hSome _ _
      obtain ⟨-, rfl⟩ := Prod.mk.inj (Option.some.inj hSome)
      exact hEnd.2
    · have hMain : wp (sysRead me fd o n) (fun _ => True) (fun res _ => (res.2 : Int) ≤ max n.toInt 0) k := by
        unfold sysRead filereadStored
        rw [argfd_eq, wp_bind, wp_read, hd]
        dsimp only
        rw [wp_bind, wp_getFile]
        cases hReadable : (k.ftable f).readable with
        | false => exact wp_val hZero
        | true =>
          rw [if_neg (by decide)]
          cases hType : (k.ftable f).type with
          | none => exact (wp_stop _).mpr trivial
          | inode => exact absurd ⟨hReadable, hType⟩ hInode
          | pipe =>
            refine wp_val ?_
            rw [← hMax]
            exact Int.ofNat_le.mpr (pipeTurns_le _ _)
          | device =>
            dsimp only
            split
            · refine wp_val ?_
              rw [← hMax]
              exact Int.ofNat_le.mpr (consoleTurns_le _ _)
            · exact wp_val hZero
      have hEnd := wp_ok hMain hRun
      refine ⟨hEnd, ?_⟩
      intro d' f' hSome hType hReadable
      obtain ⟨-, rfl⟩ := Prod.mk.inj (Option.some.inj hSome)
      exact absurd ⟨hReadable, hType⟩ hInode

end

namespace NamesSample

def f0 : Fp := ⟨0, nfile_pos⟩

def reader : Reader := ⟨0, 0, fun _ => 4096, [], []⟩

/-- `open(".", O_RDONLY)` in sections. -/
def readActs : List (Pool.Act Pid Call) := .start p0 (.open [46] 0) :: List.replicate 6 (.step p0)

/-- Descriptor 0 of the process stands for the root directory, 64 bytes long. -/
def readable (s : Processes) : Bool :=
  let v := s.shared.ftable f0
  let i := s.shared.fs.itable v.ip
  (descriptor (s.shared.proc p0) 0 == some (⟨0, by decide⟩, f0)) && v.type == .inode && v.off == 0 &&
  i.ref == 2 && i.valid && !i.locked &&
  match sysRead p0 0 reader (-1) s.shared with
  | .ok ((r, stored), _) => r == some 64 && stored == 64
  | .error _ => false

lemma readable_reaches : ∃ s, Reaches s ∧ readable s = true :=
  Transition.Reachable.exists_of_run (fun _ _ _ ht => ht) readActs (fun _ _ _ => trivial) start_reaches (by decide +kernel)

lemma available_of_readable {s : Processes} (h : readable s = true) :
    descriptor (s.shared.proc p0) 0 = some (⟨0, by decide⟩, f0) ∧ (s.shared.ftable f0).type = .inode ∧ Available s.shared f0 ∧
      ∃ k', sysRead p0 0 reader (-1) s.shared = .ok ((some 64, 64), k') := by
  simp only [readable, Bool.and_eq_true, beq_iff_eq, Bool.not_eq_true'] at h
  obtain ⟨⟨⟨⟨⟨⟨hd, hType⟩, -⟩, hRef⟩, hValid⟩, hLocked⟩, hRun⟩ := h
  refine ⟨hd, hType, ⟨by rw [hRef]; decide, hValid, hLocked⟩, ?_⟩
  split at hRun
  · grind
  · cases hRun

end NamesSample

open NamesSample in
theorem read_stores_within_sixteen : ∃ s, Reaches s ∧ ReadsWithin s.shared p0 0 16 := by
  obtain ⟨s, hs, hTest⟩ := readable_reaches
  obtain ⟨e, hView, -⟩ := hs.view
  obtain ⟨hd, hType, hOpen, -⟩ := available_of_readable hTest
  refine ⟨s, hs, (read_stores_within hView.consistent ?_).mpr ?_⟩
  · grind
  · rintro ⟨d, f, -, -, -, hNeg, -⟩
    exact absurd hNeg (by decide)

open NamesSample in
/-- `read(0, buf, -1)` at the start of a file of 64 bytes stores all of them. -/
theorem read_negative_stores_file : ∃ s o k', Reaches s ∧ descriptor (s.shared.proc p0) 0 = some (⟨0, by decide⟩, f0) ∧
    (s.shared.ftable f0).type = .inode ∧ sysRead p0 0 o (-1) s.shared = .ok ((some 64, 64), k') := by
  obtain ⟨s, hs, hTest⟩ := readable_reaches
  obtain ⟨hd, hType, -, k', hRun⟩ := available_of_readable hTest
  exact ⟨s, reader, k', hs, hd, hType, hRun⟩

end Xv6K230.Names
