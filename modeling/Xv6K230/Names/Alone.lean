import Xv6K230.Names.Calls

/-! # A call that runs alone

The sections of a call in a row are the call, for a process that has a current directory.
-/

namespace Xv6K230.Names

open Fs

section

variable {α β : Type} {P : Kernel → Prop} (me : Pid) (cwd ip : Ip) (path old new : Text)

abbrev alone (c : Coded α) : KM α := c.run Section.run

@[simp] lemma alone_sect (l : Section α) : alone (sect l) = l.run := Code.run_section _ l

@[simp] lemma alone_pure (a : α) : alone (pure a : Coded α) = pure a := rfl

@[simp] lemma alone_bind (c : Coded α) (f : α → Coded β) : alone (c >>= f) = alone c >>= fun a => alone (f a) :=
  Code.run_bind _ c f

@[simp] lemma onFs_pure (a : α) : onFs (pure a : FsM α) = pure a := rfl

@[simp] lemma onFs_bind (m : FsM α) (f : α → FsM β) : onFs (m >>= f) = onFs m >>= fun a => onFs (f a) := by
  apply Prog.zoom_bind
  · exact fun _ _ => rfl
  · exact fun _ _ _ => rfl

/-! ## Paths -/

lemma skipelem_lt {name rest : Text} (h : skipelem path = some (name, rest)) : rest.length < path.length := by
  unfold skipelem at h
  simp only at h
  split at h
  · cases h
  · rename_i hne
    cases h
    have hDrop := (List.dropWhile_sublist (· = slash) (l := path)).length_le
    obtain ⟨c, l, hcl⟩ := List.exists_cons_of_ne_nil hne
    have hHead : c ≠ slash := by
      have hNot := List.head_dropWhile_not (· = slash) hne
      simp only [hcl, List.head_cons, decide_eq_false_iff_not] at hNot
      exact hNot
    rw [hcl] at hDrop ⊢
    rw [List.dropWhile_cons_of_pos (by simpa using hHead)]
    have h1 := (List.dropWhile_sublist (· ≠ slash) (l := l)).length_le
    have h2 := (List.dropWhile_sublist (· = slash) (l := l.dropWhile (· ≠ slash))).length_le
    rw [List.length_cons] at hDrop
    omega

lemma namexLoop_succ (parent : Bool) (fuel : Nat) :
    namexLoop parent (fuel + 1) ip path =
      (match skipelem path with
      | none =>
        if parent then do
          iput ip
          return none
        else
          return some (ip, [])
      | some (name, rest) => do
        match ← walkStep ip name (parent && rest = []) with
        | none =>
          iput ip
          return none
        | some none => return some (ip, name)
        | some (some next) =>
          iput ip
          namexLoop parent fuel next rest) := by
  rw [namexLoop]
  cases hSkip : skipelem path with
  | none => rfl
  | some p =>
    obtain ⟨name, rest⟩ := p
    have hLast : (parent && decide (rest = [])) = true ↔ parent = true ∧ rest = [] := by simp
    simp only [walkStep, bind_assoc, Prog.ite_bind, pure_bind, hLast, iunlockput]
    congr 1
    funext _
    congr 1
    funext i
    split
    · rfl
    · split
      · rfl
      · congr 1
        funext r
        cases r with
        | none => simp only [bind_assoc, pure_bind]
        | some p => simp only [bind_assoc, pure_bind]

lemma alone_walkCode (parent : Bool) : ∀ (fuel : Nat) (ip : Ip) (path : Text), path.length < fuel →
    alone (walkCode parent fuel ip path) = onFs (namexLoop parent fuel ip path) := by
  intro fuel
  induction fuel with
  | zero => exact fun _ path h => absurd h (Nat.not_lt_zero _)
  | succ fuel ih =>
    intro ip path hFuel
    rw [namexLoop_succ]
    unfold walkCode
    cases hSkip : skipelem path with
    | none => cases parent <;> simp only [alone_bind, alone_sect, alone_pure, Section.run, onFs_bind, onFs_pure, if_true,
        Bool.false_eq_true, if_false]
    | some p =>
      obtain ⟨name, rest⟩ := p
      have hLt := skipelem_lt path hSkip
      simp only [alone_bind, alone_sect, Section.run, onFs_bind]
      congr 1
      funext r
      rcases r with _ | _ | next
      · simp only [alone_bind, alone_sect, alone_pure, Section.run, onFs_bind, onFs_pure]
      · rfl
      · simp only [alone_bind, alone_sect, Section.run, onFs_bind, ih next rest (by omega)]

/-! ## Programs that agree -/

def AgreeOn (P : Kernel → Prop) (m m' : KM α) : Prop := ∀ k, P k → m k = m' k

lemma AgreeOn.of_eq {m m' : KM α} (h : m = m') : AgreeOn P m m' := fun k _ => by rw [h]

lemma AgreeOn.bind {m m' : KM α} {g g' : α → KM β} (h : AgreeOn P m m') (hKeep : ∀ k a t, P k → m' k = .ok (a, t) → P t)
    (hg : ∀ a, AgreeOn P (g a) (g' a)) : AgreeOn P (m >>= g) (m' >>= g') := by
  intro k hk
  change Prog.seq m g k = Prog.seq m' g' k
  unfold Prog.seq
  rw [h k hk]
  cases hm : m' k with
  | error e => rfl
  | ok r => exact hg r.1 r.2 (hKeep k r.1 r.2 hk hm)

lemma onFs_ok {m : FsM α} {k t : Kernel} {a : α} (h : onFs m k = .ok (a, t)) : ∃ u, t = k.setFs u := by
  unfold onFs Prog.zoom at h
  cases hm : m k.fs with
  | error e =>
    rw [hm] at h
    cases h
  | ok r =>
    rw [hm] at h
    cases h
    exact ⟨_, rfl⟩

def In (k : Kernel) : Prop := (k.proc me).cwd = some cwd

variable {me cwd}

lemma AgreeOn.bind_onFs {m : KM α} {m' : FsM α} {g g' : α → KM β} (h : AgreeOn (In me cwd) m (onFs m'))
    (hg : ∀ a, AgreeOn (In me cwd) (g a) (g' a)) : AgreeOn (In me cwd) (m >>= g) (onFs m' >>= g') := by
  refine h.bind (fun k a t hk ht => ?_) hg
  obtain ⟨u, rfl⟩ := onFs_ok ht
  exact hk

lemma namex_eq (parent : Bool) :
    namex cwd path parent = (do
      let ip ← walkStart cwd (path.head? = some slash)
      namexLoop parent (path.length + 1) ip path) := by
  unfold namex walkStart
  by_cases hHead : path.head? = some slash <;> simp only [hHead, decide_true, decide_false, if_true, if_false, Bool.false_eq_true]

lemma startAt_eq (absolute : Bool) (k : Kernel) : startAt me absolute k =
    (match (k.proc me).cwd with
    | none => Prog.stop Stop.nullPointer
    | some cwd => onFs (walkStart cwd absolute) : KM Ip) k := rfl

lemma alone_pathCode (parent : Bool) :
    AgreeOn (In me cwd) (alone (pathCode me parent path)) (onFs (namex cwd path parent)) := by
  have hLoop := fun ip => alone_walkCode parent (path.length + 1) ip path (Nat.lt_succ_self _)
  unfold pathCode
  rw [namex_eq]
  simp only [alone_bind, alone_sect, Section.run, hLoop, onFs_bind]
  apply AgreeOn.bind_onFs _ fun _ => .of_eq rfl
  intro k hk
  rw [startAt_eq, hk]

/-! ## The calls -/

/-- What follows the sections of `sys_unlink` under locks. -/
def unlinkRest (dp : Ip) : Option Ip → FsM Int
  | none => do
    iput dp
    return -1
  | some ip => do
    iput ip
    return 0

lemma unlinkEntry_eq (dp : Ip) (off : Nat) :
    unlinkEntry dp ip off =
      (do
        ilock ip
        let r ← unlinkFound dp ip off
        let r ← unlinkRest dp r
        endOp
        return r) := by
  unfold unlinkEntry unlinkFound unlinkBusy unlinkClear parentDown
  simp only [bind_assoc]
  congr 1
  funext _
  congr 1
  funext i
  by_cases hLink : i.di.nlink < 1
  · rw [if_pos hLink, if_pos hLink, Prog.stop_bind]
  · rw [if_neg hLink, if_neg hLink, bind_assoc]
    by_cases hDir : i.di.type = tDir
    · simp only [if_pos hDir, decide_eq_true hDir, if_true]
      congr 1
      funext busy
      cases busy <;> simp only [Bool.false_eq_true, if_true, if_false, bind_assoc, Prog.ite_bind, Prog.stop_bind, pure_bind,
        unlinkBad, unlinkRest, iunlockput]
    · simp only [if_neg hDir, decide_eq_false hDir, Bool.false_eq_true, if_false, pure_bind, bind_assoc, Prog.ite_bind,
        Prog.stop_bind, unlinkRest, iunlockput]

lemma sysUnlink_eq :
    sysUnlink cwd (some path) =
      (do
        beginOp
        match ← nameiparent cwd path with
        | none =>
          endOp
          return -1
        | some (dp, name) =>
          let r ← unlinkIn dp name
          let r ← unlinkRest dp r
          endOp
          return r) := by
  dsimp only [sysUnlink]
  congr 1
  funext _
  congr 1
  funext r
  cases r with
  | none => rfl
  | some p =>
    obtain ⟨dp, name⟩ := p
    simp only [unlinkIn, bind_assoc]
    congr 1
    funext _
    by_cases hDot : namecmp name [46] = 0 ∨ namecmp name [46, 46] = 0
    · simp only [if_pos hDot, bind_assoc, pure_bind, unlinkBad, unlinkRest, iunlockput]
    · simp only [if_neg hDot, bind_assoc]
      congr 1
      funext r
      cases r with
      | none => simp only [bind_assoc, pure_bind, unlinkBad, unlinkRest, iunlockput]
      | some p => simp only [unlinkEntry_eq, bind_assoc]

lemma alone_unlinkCode :
    AgreeOn (In me cwd) (alone (inOp (unlinkCode me path))) (onFs (sysUnlink cwd (some path))) := by
  rw [sysUnlink_eq]
  unfold inOp unlinkCode nameiparent
  simp only [alone_bind, alone_sect, Section.run, onFs_bind, bind_assoc]
  apply AgreeOn.bind_onFs (.of_eq rfl)
  intro _
  apply AgreeOn.bind_onFs (alone_pathCode path true)
  rintro (_ | ⟨dp, name⟩)
  · exact .of_eq (by simp only [alone_pure, onFs_bind, onFs_pure, pure_bind])
  · apply AgreeOn.of_eq
    simp only [alone_bind, alone_sect, Section.run, onFs_bind, bind_assoc]
    congr 1
    funext r
    cases r <;> simp only [alone_bind, alone_sect, alone_pure, Section.run, unlinkRest, onFs_bind, onFs_pure, bind_assoc, pure_bind]

lemma linkTo_eq :
    linkTo cwd ip new =
      (do
        match ← nameiparent cwd new with
        | none => linkBad ip
        | some (dp, name) =>
          let ok ← linkIn dp ip name
          iput dp
          if ok then
            iput ip
            endOp
            return 0
          else
            linkBad ip) := by
  unfold linkTo
  congr 1
  funext r
  cases r with
  | none => rfl
  | some p =>
    obtain ⟨dp, name⟩ := p
    simp only [linkIn, iunlockput, bind_assoc, Prog.ite_bind, pure_bind]

lemma alone_linkBadCode :
    onFs (linkBad ip) = (do
      let r ← alone (linkBadCode ip)
      onFs endOp
      return r) := by
  unfold linkBad linkBadCode
  simp only [alone_bind, alone_sect, alone_pure, Section.run, linkDown, iunlockput, onFs_bind, onFs_pure, bind_assoc, pure_bind]

lemma sysLink_eq :
    sysLink cwd (some old) (some new) =
      (do
        beginOp
        match ← namei cwd old with
        | none =>
          endOp
          return -1
        | some ip =>
          if ← linkUp ip then
            linkTo cwd ip new
          else
            iput ip
            endOp
            return -1) := by
  dsimp only [sysLink]
  congr 1
  funext _
  congr 1
  funext r
  cases r with
  | none => rfl
  | some ip =>
    simp only [linkUp, iunlockput, bind_assoc, Prog.ite_bind, pure_bind, if_true, Bool.false_eq_true, if_false]

lemma alone_linkCode :
    AgreeOn (In me cwd) (alone (inOp (linkCode me old new))) (onFs (sysLink cwd (some old) (some new))) := by
  rw [sysLink_eq]
  unfold inOp linkCode namei
  simp only [alone_bind, alone_sect, Section.run, onFs_bind, bind_assoc]
  apply AgreeOn.bind_onFs (.of_eq rfl)
  intro _
  apply AgreeOn.bind_onFs (alone_pathCode old false)
  rintro (_ | ⟨ip, l⟩)
  · exact .of_eq (by simp only [alone_pure, onFs_bind, onFs_pure, pure_bind, Option.map_none])
  · simp only [onFs_pure, pure_bind, Option.map_some, alone_bind, alone_sect, Section.run, onFs_bind, bind_assoc]
    apply AgreeOn.bind_onFs (.of_eq rfl)
    intro ok
    cases ok with
    | false =>
      exact .of_eq (by simp only [Bool.false_eq_true, if_false, alone_bind, alone_sect, alone_pure, Section.run, onFs_bind, onFs_pure,
        bind_assoc, pure_bind])
    | true =>
      simp only [if_true, alone_bind, bind_assoc, linkTo_eq, onFs_bind, nameiparent]
      apply AgreeOn.bind_onFs (alone_pathCode new true)
      rintro (_ | ⟨dp, name⟩)
      · exact .of_eq (alone_linkBadCode ip).symm
      · apply AgreeOn.of_eq
        simp only [alone_bind, alone_sect, Section.run, onFs_bind, bind_assoc]
        congr 1
        funext ok
        congr 1
        funext _
        cases ok with
        | false =>
          simp only [Bool.false_eq_true, if_false]
          exact (alone_linkBadCode ip).symm
        | true => simp only [if_true, alone_bind, alone_sect, alone_pure, Section.run, onFs_bind, onFs_pure, bind_assoc, pure_bind]

lemma createIn_eq (dp : Ip) (name : Text) (type : UInt16) (major minor : Int16) :
    createIn dp name type major minor =
      (do
        let d ← getInode dp
        match ← ialloc d.dev type with
        | none =>
          iunlockput dp
          return none
        | some ip =>
          ilock ip
          modDi ip fun x => { x with major := major, minor := minor, nlink := 1 }
          iupdate ip
          let i ← getInode ip
          let ok ← dotsIn ip (type = tDir) i.inum d.inum
          let ok ← entryIn dp name i.inum ok
          createEnd dp ip (type = tDir) ok) := by
  unfold createIn dotsIn entryIn createEnd parentUp
  congr 1
  funext d
  congr 1
  funext r
  cases r with
  | none => rfl
  | some ip =>
    simp only
    congr 1
    funext _
    congr 1
    funext _
    congr 1
    funext _
    congr 1
    funext i
    by_cases hDir : type = tDir
    · simp only [if_pos hDir, decide_eq_true hDir, if_true, Prog.ite_bind, bind_assoc]
    · simp only [if_neg hDir, decide_eq_false hDir, Bool.false_eq_true, if_false, pure_bind, if_true]

lemma create_eq (type : UInt16) (major minor : Int16) :
    create cwd path type major minor =
      (do
        match ← nameiparent cwd path with
        | none => return none
        | some (dp, name) =>
          match ← createAt dp name type major minor with
          | .failed => return none
          | .made ip => return some ip
          | .found ip =>
            iput dp
            ilock ip
            let i ← getInode ip
            if type = tFile ∧ (i.di.type = tFile ∨ i.di.type = tDevice) then
              return some ip
            else
              iunlockput ip
              return none) := by
  unfold create createAt
  congr 1
  funext r
  cases r with
  | none => rfl
  | some p =>
    obtain ⟨dp, name⟩ := p
    simp only [bind_assoc]
    congr 1
    funext _
    congr 1
    funext r
    cases r with
    | some p => simp only [iunlockput, bind_assoc, pure_bind]
    | none =>
      simp only [bind_assoc]
      conv_lhs => rw [← bind_pure (createIn dp name type major minor)]
      congr 1
      funext r
      cases r <;> rfl

lemma alone_makeCode {type : UInt16} (hType : type ≠ tFile) (major minor : Int16) :
    AgreeOn (In me cwd) (alone (inOp (makeCode me path type major minor))) (onFs (makeNode cwd (some path) type major minor)) := by
  unfold inOp makeCode makeNode
  simp only [create_eq, nameiparent, alone_bind, alone_sect, Section.run, onFs_bind, bind_assoc]
  apply AgreeOn.bind_onFs (.of_eq rfl)
  intro _
  apply AgreeOn.bind_onFs (alone_pathCode path true)
  rintro (_ | ⟨dp, name⟩)
  · exact .of_eq (by simp only [alone_pure, onFs_bind, onFs_pure, pure_bind])
  · apply AgreeOn.of_eq
    simp only [alone_bind, alone_sect, Section.run, makeAt, onFs_bind, bind_assoc]
    congr 1
    funext r
    cases r with
    | failed => simp only [alone_pure, onFs_bind, onFs_pure, pure_bind]
    | found ip =>
      simp only [hType, false_and, if_false, onFs_bind, onFs_pure, bind_assoc, pure_bind, alone_bind, alone_sect, alone_pure, Section.run,
        look, iunlockput]
      rfl
    | made ip => simp only [onFs_bind, onFs_pure, bind_assoc, pure_bind, alone_bind, alone_sect, alone_pure, Section.run, iunlockput]

lemma AgreeOn.bind_of_agree {m m' : KM α} (h : AgreeOn P m m') (g : α → KM β) : AgreeOn P (m >>= g) (m' >>= g) := by
  intro k hk
  change Prog.seq m g k = Prog.seq m' g k
  unfold Prog.seq
  rw [h k hk]

lemma AgreeOn.bind_read (f : Kernel → α) {g g' : α → KM β} (hg : ∀ a, AgreeOn P (g a) (g' a)) :
    AgreeOn P (Prog.read f >>= g) (Prog.read f >>= g') :=
  fun k hk => hg (f k) k hk

lemma AgreeOn.trans {m m' m'' : KM α} (h : AgreeOn P m m') (h' : AgreeOn P m' m'') : AgreeOn P m m'' :=
  fun k hk => (h k hk).trans (h' k hk)

lemma AgreeOn.symm {m m' : KM α} (h : AgreeOn P m m') : AgreeOn P m' m := fun k hk => (h k hk).symm

lemma onFs_getInode : onFs (getInode ip) = Prog.read fun k => k.fs.itable ip := rfl

lemma openInode_eq (omode : Nat) :
    openInode me ip omode = (do
      match ← openLocked me ip omode with
      | none =>
        onFs (iput ip)
        onFs endOp
        return -1
      | some fd =>
        onFs endOp
        return fd.val) := by
  unfold openInode openLocked
  simp only [bind_assoc]
  congr 1
  funext i
  by_cases hMajor : i.di.type = tDevice ∧ (i.di.major < 0 ∨ i.di.major.toInt ≥ ndev)
  · rw [if_pos hMajor, if_pos hMajor]
    simp only [iunlockput, onFs_bind, bind_assoc, pure_bind]
  · rw [if_neg hMajor, if_neg hMajor, bind_assoc]
    congr 1
    funext r
    cases r with
    | none => simp only [iunlockput, onFs_bind, bind_assoc, pure_bind]
    | some f =>
      simp only [bind_assoc]
      congr 1
      funext r
      cases r with
      | none => simp only [iunlockput, onFs_bind, bind_assoc, pure_bind]
      | some fd => simp only [bind_assoc, Prog.ite_bind, pure_bind]

lemma read_bind {α β : Type} (f : Kernel → α) (g : α → KM β) (k : Kernel) : (Prog.read f >>= g) k = g (f k) k := rfl

lemma sysOpen_in (omode : Nat) :
    AgreeOn (In me cwd) (sysOpen me (some path) omode) (do
      onFs beginOp
      if omode &&& oCreate ≠ 0 then
        match ← onFs (create cwd path tFile 0 0) with
        | none =>
          onFs endOp
          return -1
        | some ip => openInode me ip omode
      else
        match ← onFs (namei cwd path) with
        | none =>
          onFs endOp
          return -1
        | some ip =>
          onFs (ilock ip)
          let i ← Prog.read fun k => k.fs.itable ip
          if i.di.type = tDir ∧ omode ≠ 0 then
            onFs (iunlockput ip)
            onFs endOp
            return -1
          else
            openInode me ip omode) := by
  intro k hk
  unfold sysOpen
  rewrite [getProc, read_bind]
  rewrite [hk]
  rfl

lemma alone_openExisting (omode : Nat) :
    (do
      let r ← alone (openExisting me ip omode)
      onFs endOp
      return r) = (do
      onFs (ilock ip)
      let i ← Prog.read fun k => k.fs.itable ip
      if Admits omode i.di.type then
        openInode me ip omode
      else
        onFs (iunlockput ip)
        onFs endOp
        return -1) := by
  unfold openExisting
  simp only [alone_bind, alone_sect, Section.run, openAt, bind_assoc]
  congr 1
  funext _
  congr 1
  funext i
  by_cases hAdmits : Admits omode i.di.type
  · rw [if_pos hAdmits, if_pos hAdmits, openInode_eq]
    congr 1
    funext r
    cases r <;> simp only [alone_bind, alone_sect, alone_pure, Section.run, bind_assoc, pure_bind]
  · rw [if_neg hAdmits, if_neg hAdmits]
    simp only [iunlockput, onFs_bind, bind_assoc, pure_bind, alone_bind, alone_sect, alone_pure, Section.run]

lemma alone_openCode (omode : Nat) :
    AgreeOn (In me cwd) (alone (inOp (openCode me path omode))) (sysOpen me (some path) omode) := by
  refine AgreeOn.trans ?_ (sysOpen_in path omode).symm
  unfold inOp openCode
  simp only [alone_bind, alone_sect, alone_pure, Section.run]
  apply AgreeOn.bind_onFs (.of_eq rfl)
  intro _
  by_cases hCreate : omode &&& oCreate ≠ 0
  · simp only [if_pos hCreate, create_eq, nameiparent, alone_bind, onFs_bind, bind_assoc]
    apply AgreeOn.bind_onFs (alone_pathCode path true)
    rintro (_ | ⟨dp, name⟩)
    · exact .of_eq (by simp only [alone_pure, onFs_pure, pure_bind])
    · apply AgreeOn.of_eq
      simp only [alone_bind, alone_sect, Section.run, openNew, onFs_bind, bind_assoc]
      congr 1
      funext r
      cases r with
      | failed => simp only [alone_pure, onFs_pure, pure_bind]
      | found ip =>
        simp only [alone_bind, alone_sect, Section.run, onFs_bind, bind_assoc, pure_bind, alone_openExisting, onFs_getInode]
        congr 1
        funext _
        congr 1
        funext _
        congr 1
        funext i
        have hAdmits : Admits omode i.di.type ↔ True ∧ (i.di.type = tFile ∨ i.di.type = tDevice) := by
          simp [Admits, hCreate]
        by_cases h : Admits omode i.di.type
        · rw [if_pos h, if_pos (hAdmits.mp h), onFs_pure, pure_bind]
        · rw [if_neg h, if_neg fun hc => h (hAdmits.mpr hc)]
          simp only [onFs_bind, onFs_pure, bind_assoc, pure_bind]
      | made ip =>
        simp only [onFs_pure, pure_bind, openInode_eq, bind_assoc]
        congr 1
        funext r
        cases r <;> simp only [alone_bind, alone_sect, alone_pure, Section.run, bind_assoc, pure_bind]
  · simp only [if_neg hCreate, namei, alone_bind, onFs_bind, bind_assoc]
    apply AgreeOn.bind_onFs (alone_pathCode path false)
    rintro (_ | ⟨ip, l⟩)
    · exact .of_eq (by simp only [alone_pure, onFs_pure, pure_bind, Option.map_none])
    · apply AgreeOn.of_eq
      simp only [onFs_pure, pure_bind, Option.map_some, alone_openExisting]
      congr 1
      funext _
      congr 1
      funext i
      have hAdmits : Admits omode i.di.type ↔ ¬ (i.di.type = tDir ∧ omode ≠ 0) := by
        unfold Admits
        rw [if_neg hCreate]
      by_cases h : i.di.type = tDir ∧ omode ≠ 0
      · rw [if_neg fun hc => hAdmits.mp hc h, if_pos h]
      · rw [if_pos (hAdmits.mpr h), if_neg h]

lemma modProc_onFs (g : Proc → Proc) (m : FsM α) (c : α → KM β) :
    (do
      modProc me g
      let a ← onFs m
      c a) = (do
      let a ← onFs m
      modProc me g
      c a) := by
  funext k
  change Prog.seq (onFs m) c (k.setProc me (g (k.proc me))) = Prog.seq (onFs m) (fun a => modProc me g >>= fun _ => c a) k
  unfold Prog.seq onFs Prog.zoom
  simp only [Kernel.setProc_fs]
  cases m k.fs with
  | error e => rfl
  | ok r => rfl

lemma sysChdir_in :
    AgreeOn (In me cwd) (sysChdir me (some path)) (do
      onFs beginOp
      match ← onFs (namei cwd path) with
      | none =>
        onFs endOp
        return -1
      | some ip =>
        onFs (ilock ip)
        let i ← Prog.read fun k => k.fs.itable ip
        if i.di.type ≠ tDir then
          onFs (iunlockput ip)
          onFs endOp
          return -1
        else
          onFs (iunlock ip)
          onFs (iput cwd)
          onFs endOp
          modProc me fun p => { p with cwd := some ip }
          return 0) := by
  apply AgreeOn.bind_onFs (.of_eq rfl)
  intro _ k hk
  rewrite [getProc, read_bind]
  rewrite [hk]
  rfl

lemma chdirTo_in : AgreeOn (In me cwd) (chdirTo me ip) (do
    onFs (iput cwd)
    modProc me fun p => { p with cwd := some ip }) := by
  intro k hk
  change (match (k.proc me).cwd with
    | none => _
    | some cwd => _ : KM Unit) k = _
  rw [hk]

lemma alone_chdirCode :
    AgreeOn (In me cwd) (alone (inOp (chdirCode me path))) (sysChdir me (some path)) := by
  refine AgreeOn.trans ?_ (sysChdir_in path).symm
  unfold inOp chdirCode
  simp only [namei, alone_bind, alone_sect, alone_pure, Section.run, onFs_bind, bind_assoc]
  apply AgreeOn.bind_onFs (.of_eq rfl)
  intro _
  apply AgreeOn.bind_onFs (alone_pathCode path false)
  rintro (_ | ⟨ip, l⟩)
  · exact .of_eq (by simp only [alone_pure, onFs_pure, pure_bind, Option.map_none])
  · simp only [onFs_pure, pure_bind, Option.map_some, alone_bind, alone_sect, Section.run, enter, onFs_bind, onFs_getInode, bind_assoc]
    apply AgreeOn.bind_onFs (.of_eq rfl)
    intro _
    apply AgreeOn.bind_read
    intro i
    by_cases hDir : i.di.type = tDir
    · simp only [hDir, ne_eq, not_true_eq_false, decide_true, if_true, if_false, alone_bind, alone_sect, alone_pure, Section.run,
        bind_assoc, pure_bind]
      apply AgreeOn.bind_onFs (.of_eq rfl)
      intro _
      refine (AgreeOn.bind_of_agree (chdirTo_in ip) _).trans (.of_eq ?_)
      simp only [bind_assoc, modProc_onFs]
    · apply AgreeOn.of_eq
      simp only [hDir, ne_eq, not_false_eq_true, decide_false, Bool.false_eq_true, if_true, if_false, alone_bind, alone_sect, alone_pure,
        Section.run, iunlockput, onFs_bind, bind_assoc, pure_bind]

lemma fileclose_eq (f : Fp) :
    fileclose me f = (do
      match ← dropFile me f with
      | none => return ()
      | some ip =>
        onFs beginOp
        onFs (iput ip)
        onFs endOp) := by
  unfold fileclose dropFile
  simp only [bind_assoc]
  congr 1
  funext ff
  by_cases hRef : ff.ref < 1
  · rw [if_pos hRef, if_pos hRef, Prog.stop_bind]
  · rw [if_neg hRef, if_neg hRef]
    by_cases hMore : ff.ref - 1 > 0
    · rw [if_pos hMore, if_pos hMore]
      simp only [bind_assoc, pure_bind]
      exact (bind_pure _).symm
    · rw [if_neg hMore, if_neg hMore, bind_assoc]
      congr 1
      funext _
      cases ff.type with
      | pipe =>
        simp only [bind_assoc, pure_bind]
        exact (bind_pure _).symm
      | inode => rfl
      | device => rfl
      | none => rfl

lemma alone_closeCode (fd : Int32) : alone (closeCode me fd) = sysClose me fd := by
  unfold closeCode sysClose
  simp only [alone_bind, alone_sect, Section.run, closeFd, bind_assoc]
  congr 1
  funext r
  rcases r with _ | ⟨fd, f⟩
  · rfl
  · simp only [bind_assoc, pure_bind, fileclose_eq]
    congr 1
    funext _
    congr 1
    funext r
    cases r with
    | none => rfl
    | some ip => simp only [inOp, alone_bind, alone_sect, alone_pure, Section.run, bind_assoc, pure_bind]

lemma alone_forkCode (np : Pid) (fds : List Fd) :
    alone (forkCode me np fds) = (do
      Prog.eachM (dupOfile me np) fds
      dupCwd me np) := by
  induction fds with
  | nil => simp only [forkCode, alone_sect, Section.run, Prog.eachM]; rfl
  | cons fd fds ih => simp only [forkCode, alone_bind, alone_sect, Section.run, ih, Prog.eachM, bind_assoc]

/-- What `argfd` looks up. -/
lemma fd_lt {fd : Int32} (h : 0 ≤ fd.toInt ∧ fd.toInt.toNat < nofile) : fd.toInt.toNat < nofile := h.2

def descriptor (p : Proc) (fd : Int32) : Option (Fd × Fp) :=
  if h : 0 ≤ fd.toInt ∧ fd.toInt.toNat < nofile then
    (p.ofile ⟨fd.toInt.toNat, fd_lt h⟩).map fun f => (⟨fd.toInt.toNat, fd_lt h⟩, f)
  else none

lemma argfd_eq (fd : Int32) : argfd me fd = Prog.read fun k => descriptor (k.proc me) fd := by
  funext k
  unfold argfd descriptor
  change (if h : _ then _ else _ : KM _) k = .ok (if h : _ then _ else _, k)
  split <;> rfl

structure Writes (me : Pid) (fd : Int32) (f : Fp) (k : Kernel) : Prop where
  descriptor : ∃ d, descriptor (k.proc me) fd = some (d, f)
  mode : (k.ftable f).writable = true ∧ (k.ftable f).type = .inode

lemma writes_chunk {fd : Int32} {f : Fp} {k : Kernel} (h : Writes me fd f k) (src : CopyIn) (n : Nat) :
    Prog.wp (Offset.filewriteChunk f src n) (fun _ => True) (fun _ t => Writes me fd f t) k := by
  unfold Offset.filewriteChunk
  simp only [Prog.wp_bind, wp_getFile, wp_onFs, Prog.wp_ite, wp_modFile, Prog.wp_pure]
  apply Prog.wp_post (Prog.wp_true _ _)
  intro _ s _
  apply Prog.wp_post (Prog.wp_true _ _)
  intro r s' _
  constructor
  · intro _
    apply Prog.wp_post (Prog.wp_true _ _)
    intro _ s'' _
    refine ⟨h.descriptor, ?_⟩
    simp only [Kernel.setFs_ftable, setFile_ftable_same]
    exact h.mode
  · intro _
    apply Prog.wp_post (Prog.wp_true _ _)
    exact fun _ s'' _ => ⟨h.descriptor, h.mode⟩

lemma writeAt_in {fd : Int32} {f : Fp} (src : Offset.Source) (n : Nat) :
    AgreeOn (Writes me fd f) (writeAt me fd src n) (Offset.filewriteChunk f src.copyin n) := by
  intro k hk
  obtain ⟨⟨d, hd⟩, hMode⟩ := hk
  unfold writeAt
  rw [argfd_eq]
  rewrite [read_bind]
  rw [hd]
  change (if (k.ftable f).writable = true ∧ (k.ftable f).type = .inode then _ else _ : KM Int) k = _
  rw [if_pos hMode]

lemma alone_writeLoop {fd : Int32} {f : Fp} (src : Offset.Source) (n : Nat) : ∀ fuel i,
    AgreeOn (Writes me fd f) (alone (writeLoop me fd src n fuel i)) (filewriteLoop f src.copyin n fuel i) := by
  intro fuel
  induction fuel with
  | zero => exact fun i => .of_eq rfl
  | succ fuel ih =>
    intro i
    by_cases hi : i < n
    · rw [Offset.filewriteLoop_succ f src.copyin n fuel i hi, writeLoop, if_pos hi]
      simp only [inOp, alone_bind, alone_sect, alone_pure, Section.run, bind_assoc, pure_bind]
      refine AgreeOn.bind (.of_eq rfl) (fun k _ t hk ht => ?_) fun _ => ?_
      · obtain ⟨u, rfl⟩ := onFs_ok ht
        exact ⟨hk.descriptor, hk.mode⟩
      rw [← src.copyin_shift]
      refine AgreeOn.bind (writeAt_in _ _) (fun k _ t hk ht => ?_) fun r => ?_
      · have hWrites := Prog.wp_ok (writes_chunk hk _ _) ht
        exact hWrites
      refine AgreeOn.bind (.of_eq rfl) (fun k _ t hk ht => ?_) fun _ => ?_
      · obtain ⟨u, rfl⟩ := onFs_ok ht
        exact ⟨hk.descriptor, hk.mode⟩
      by_cases hr : r ≠ (min (n - i) ((maxopblocks - 1 - 1 - 2) / 2 * bsize) : Nat)
      · rw [if_pos hr, if_pos hr]
        exact .of_eq rfl
      · rw [if_neg hr, if_neg hr]
        exact ih _
    · rw [writeLoop, filewriteLoop, if_neg hi, if_neg hi]
      exact .of_eq rfl

lemma alone_writeCode (fd : Int32) (src : Offset.Source) (n : Int32) (other : Int) :
    alone (writeCode me fd src n other) = sysWrite me fd src.copyin n other := by
  unfold writeCode sysWrite
  simp only [alone_bind, alone_sect, Section.run, fileAt, argfd_eq, bind_assoc]
  funext k
  simp only [read_bind]
  cases hd : descriptor (k.proc me) fd with
  | none => rfl
  | some p =>
    obtain ⟨d, f⟩ := p
    simp only [bind_assoc, pure_bind, filewrite]
    change alone (if (!(k.ftable f).writable) = true then _ else _) k = (if (!(k.ftable f).writable) = true then _ else _ : KM Int) k
    by_cases hw : (!(k.ftable f).writable) = true
    · rw [if_pos hw, if_pos hw]
      rfl
    · rw [if_neg hw, if_neg hw]
      cases hType : (k.ftable f).type with
      | pipe => rfl
      | device => rfl
      | none => rfl
      | inode =>
        simp only
        by_cases hn : n < 0
        · rw [if_pos hn, if_pos hn]
          rfl
        · rw [if_neg hn, if_neg hn]
          exact alone_writeLoop src _ _ _ k ⟨⟨d, hd⟩, by simpa using hw, hType⟩

end

end Xv6K230.Names
