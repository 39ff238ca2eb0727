import Xv6K230.Fs.Path

/-! # Computations inside an operation

Path lookup and reading, as `exec` uses them, stop with panics of the file system only, and
leave it to their caller to begin and to end the operation they belong to.
-/

namespace Xv6K230.Fs

open Prog

abbrev NoVm {α : Type} (m : FsM α) : Prop := Within (fun e => ¬ e.OfVm) m

def SameOps (s t : FsState) : Prop := t.outstanding = s.outstanding

instance : Std.Refl SameOps := ⟨fun _ => rfl⟩

instance : IsTrans FsState SameOps := ⟨fun _ _ _ h h' => Eq.trans h' h⟩

structure Inner {α : Type} (m : FsM α) : Prop where
  noVm : NoVm m
  ops : Moves SameOps m

namespace Inner

variable {α β : Type} {m : FsM α}

lemma pure (a : α) : Inner (Pure.pure a : FsM α) := ⟨.pure a, .pure a⟩

lemma read (f : FsState → α) : Inner (Prog.read f : FsM α) := ⟨.read f, .read f⟩

lemma update {f : FsState → FsState} (h : ∀ s, SameOps s (f s)) : Inner (Prog.update f : FsM Unit) := ⟨.update f, .update h⟩

lemma stop {e : Stop} (h : ¬ e.OfVm) : Inner (Prog.stop e : FsM α) := ⟨.stop h, .stop e⟩

lemma ite {c : Prop} [Decidable c] {m' : FsM α} (h : Inner m) (h' : Inner m') : Inner (if c then m else m') :=
  ⟨.ite h.noVm h'.noVm, .ite h.ops h'.ops⟩

lemma bind {f : α → FsM β} (hm : Inner m) (hf : ∀ a, Inner (f a)) : Inner (m >>= f) :=
  ⟨.bind hm.noVm fun a => (hf a).noVm, .bind hm.ops fun a => (hf a).ops⟩

lemma firstM {body : β → FsM (Option α)} {l : List β} (h : ∀ b, Inner (body b)) : Inner (Prog.firstM body l) :=
  ⟨.firstM fun b => (h b).noVm, .firstM fun b => (h b).ops⟩

lemma eachM {body : β → FsM Unit} {l : List β} (h : ∀ b, Inner (body b)) : Inner (Prog.eachM body l) :=
  ⟨.eachM fun b => (h b).noVm, .eachM fun b => (h b).ops⟩

end Inner

lemma inner_getInode (ip : Ip) : Inner (getInode ip) := .read _

lemma inner_modInode (ip : Ip) (f : Inode → Inode) : Inner (modInode ip f) := .update fun _ => rfl

lemma inner_modDi (ip : Ip) (f : Dinode → Dinode) : Inner (modDi ip f) := inner_modInode ip _

lemma inner_logWrite (b : Nat) : Inner (logWrite b) :=
  .bind (.read _) fun _ => .ite (.stop id) (.ite (.stop id) (.ite (.pure _) (.update fun _ => rfl)))

lemma inner_bzero (b : Nat) : Inner (bzero b) := .bind (.update fun _ => rfl) fun _ => inner_logWrite b

lemma inner_ballocIn (sb : Superblock) (b : Nat) : Inner (ballocIn sb b) := by
  refine .bind (.read _) fun bp => ?_
  cases firstFree bp (min bpb (sb.size - b)) with
  | none => exact .pure _
  | some bi =>
    exact .bind (.update fun _ => rfl) fun _ => .bind (inner_logWrite _) fun _ => .bind (inner_bzero _) fun _ => .pure _

lemma inner_balloc : Inner balloc :=
  .bind (.read _) fun _ => .bind (.firstM fun _ => inner_ballocIn _ _) fun _ => .pure _

lemma inner_bfree (b : Nat) : Inner (bfree b) :=
  .bind (.read _) fun _ => .bind (.read _) fun _ =>
    .ite (.stop id) (.bind (.update fun _ => rfl) fun _ => inner_logWrite _)

lemma inner_iupdate (ip : Ip) : Inner (iupdate ip) :=
  .bind (inner_getInode ip) fun _ => .bind (.read _) fun _ => .bind (.update fun _ => rfl) fun _ => inner_logWrite _

lemma inner_iget (dev inum : Nat) : Inner (iget dev inum) := by
  refine .bind (.read _) fun t => ?_
  cases findInode t dev inum with
  | some ip => exact .bind (inner_modInode ip _) fun _ => .pure _
  | none =>
    cases emptySlot t with
    | none => exact .stop id
    | some ip => exact .bind (inner_modInode ip _) fun _ => .pure _

lemma inner_idup (ip : Ip) : Inner (idup ip) := .bind (inner_modInode ip _) fun _ => .pure _

lemma inner_acquiresleep (ip : Ip) : Inner (acquiresleep ip) :=
  .bind (inner_getInode ip) fun _ => .ite (.stop id) (inner_modInode ip _)

lemma inner_releasesleep (ip : Ip) : Inner (releasesleep ip) := inner_modInode ip _

lemma inner_ilock (ip : Ip) : Inner (ilock ip) :=
  .bind (inner_getInode ip) fun _ => .ite (.stop id) (.bind (inner_acquiresleep ip) fun _ =>
    .ite (.bind (.read _) fun _ => .bind (inner_modInode ip _) fun _ => .ite (.stop id) (.pure _)) (.pure _))

lemma inner_iunlock (ip : Ip) : Inner (iunlock ip) :=
  .bind (inner_getInode ip) fun _ => .ite (.stop id) (inner_releasesleep ip)

lemma inner_indirectBlock (ip : Ip) : Inner (indirectBlock ip) :=
  .bind (inner_getInode ip) fun _ => .ite (.pure _) (.bind inner_balloc fun _ =>
    .ite (.pure _) (.bind (inner_modDi ip _) fun _ => .pure _))

lemma inner_bmap (ip : Ip) (bn : Nat) : Inner (bmap ip bn) := by
  refine .bind (inner_getInode ip) fun _ => .ite ?_ (.ite ?_ (.stop id))
  · exact .ite (.pure _) (.bind inner_balloc fun _ => .ite (.pure _) (.bind (inner_modDi ip _) fun _ => .pure _))
  · refine .bind (inner_indirectBlock ip) fun ind => .ite (.pure _) (.bind (.read _) fun bp => .ite (.pure _) ?_)
    exact .bind inner_balloc fun _ =>
      .ite (.bind (.update fun _ => rfl) fun _ => .bind (inner_logWrite _) fun _ => .pure _) (.pure _)

lemma inner_truncDirect (ip : Ip) (k : Nat) : Inner (truncDirect ip k) :=
  .bind (inner_getInode ip) fun _ => .ite (.bind (inner_bfree _) fun _ => inner_modDi ip _) (.pure _)

lemma inner_truncEntry (ind j : Nat) : Inner (truncEntry ind j) :=
  .bind (.read _) fun _ => .ite (inner_bfree _) (.pure _)

lemma inner_itrunc (ip : Ip) : Inner (itrunc ip) := by
  have hLast : Inner (modDi ip (fun d => { d with size := 0 }) >>= fun _ => iupdate ip) :=
    .bind (inner_modDi ip _) fun _ => inner_iupdate ip
  refine .bind (.eachM fun k => inner_truncDirect ip k) fun _ => .bind (inner_getInode ip) fun i => .ite ?_ hLast
  exact .bind (.eachM fun j => inner_truncEntry _ j) fun _ => .bind (inner_bfree _) fun _ =>
    .bind (inner_modDi ip _) fun _ => hLast

lemma inner_iput (ip : Ip) : Inner (iput ip) := by
  refine .bind (inner_getInode ip) fun _ => .ite ?_ (inner_modInode ip _)
  exact .bind (inner_acquiresleep ip) fun _ => .bind (inner_itrunc ip) fun _ => .bind (inner_modDi ip _) fun _ =>
    .bind (inner_iupdate ip) fun _ => .bind (inner_modInode ip _) fun _ => .bind (inner_releasesleep ip) fun _ =>
      inner_modInode ip _

lemma inner_iunlockput (ip : Ip) : Inner (iunlockput ip) := .bind (inner_iunlock ip) fun _ => inner_iput ip

lemma inner_readiLoop (ip : Ip) (copy : Nat → Text → Bool) (n : Nat) :
    ∀ (fuel tot off : Nat) (acc : Text), Inner (readiLoop ip copy n fuel tot off acc) := by
  intro fuel
  induction fuel with
  | zero => exact fun _ _ _ => .pure _
  | succ fuel ih =>
    intro tot off acc
    refine .ite (.bind (inner_bmap ip _) fun addr => .ite (.pure _) (.bind (.read _) fun bp => ?_)) (.pure _)
    exact .ite (ih _ _ _) (.pure _)

lemma inner_readiKernel (ip : Ip) (off n : Nat) : Inner (readiKernel ip off n) :=
  .bind (inner_getInode ip) fun _ => .ite (.pure _) (inner_readiLoop ip _ _ _ _ _ _)

lemma inner_readDirent (dp : Ip) (off : Nat) {e : Stop} (he : ¬ e.OfVm) : Inner (readDirent dp off e) :=
  .bind (inner_readiKernel dp off _) fun _ => .ite (.stop he) (.pure _)

lemma inner_dirlookup (dp : Ip) (name : Text) : Inner (dirlookup dp name) := by
  refine .bind (inner_getInode dp) fun d => .ite (.stop id) (.firstM fun off => ?_)
  exact .bind (inner_readDirent dp off id) fun de =>
    .ite (.pure _) (.ite (.bind (inner_iget _ _) fun _ => .pure _) (.pure _))

lemma inner_namexLoop (parent : Bool) : ∀ (fuel : Nat) (ip : Ip) (path : Text),
    Inner (namexLoop parent fuel ip path) := by
  intro fuel
  induction fuel with
  | zero => exact fun _ _ => .stop id
  | succ fuel ih =>
    intro ip path
    unfold namexLoop
    cases skipelem path with
    | none => exact .ite (.bind (inner_iput ip) fun _ => .pure _) (.pure _)
    | some elem =>
      refine .bind (inner_ilock ip) fun _ => .bind (inner_getInode ip) fun i => .ite ?_ (.ite ?_ ?_)
      · exact .bind (inner_iunlockput ip) fun _ => .pure _
      · exact .bind (inner_iunlock ip) fun _ => .pure _
      · refine .bind (inner_dirlookup ip _) fun r => ?_
        cases r with
        | none => exact .bind (inner_iunlockput ip) fun _ => .pure _
        | some next => exact .bind (inner_iunlockput ip) fun _ => ih _ _

lemma inner_namei (cwd : Ip) (path : Text) : Inner (namei cwd path) := by
  refine .bind (.ite ?_ ?_) fun _ => .pure _
  · exact .bind (inner_iget _ _) fun _ => inner_namexLoop _ _ _ _
  · exact .bind (inner_idup _) fun _ => inner_namexLoop _ _ _ _

/-! ## Operations -/

lemma noVm_beginOp : NoVm beginOp := .bind (.read _) fun _ => .ite (.stop id) (.update _)

lemma noVm_endOp : NoVm endOp := .update _

lemma noVm_reclaimAt (dev inum : Nat) : NoVm (reclaimAt dev inum) :=
  .bind (.read _) fun _ => .ite (.bind (inner_iget _ _).noVm fun ip => .bind noVm_beginOp fun _ =>
    .bind (inner_ilock ip).noVm fun _ => .bind (inner_iunlock ip).noVm fun _ => .bind (inner_iput ip).noVm fun _ => noVm_endOp) (.pure _)

lemma noVm_ireclaim (dev : Nat) : NoVm (ireclaim dev) :=
  .bind (.read _) fun _ => .eachM fun inum => noVm_reclaimAt dev inum

end Xv6K230.Fs
