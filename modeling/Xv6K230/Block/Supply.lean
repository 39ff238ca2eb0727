import Xv6K230.Block.Coherence

/-! # Buffers for a commit

While `commit` runs, the blocks of the log stay pinned in as many buffers until `install_trans` unpins them one by one.
-/

namespace Xv6K230.Blk

open List (erase_cons_head mem_cons_self mem_toFinset)
open Finset (card_le_card mem_filter)
open Prog

open Fs (rootdev)

/-- The buffers while only `commit` uses them: the blocks in `pinned` are cached and
pinned, and `held` are the buffers that `commit` holds. -/
structure Supply (s : Blocks) (pinned : List Nat) (held : List Bi) : Prop where
  listed : Listed s
  unique : ∀ i j, (s.buf i).dev = rootdev → (s.buf j).dev = rootdev → (s.buf i).blockno = (s.buf j).blockno → i = j
  refcnt : ∀ i, (s.buf i).refcnt = held.count i + (inLog (s.buf i) pinned).toNat
  cached : ∀ n ∈ pinned, ∃ i, (s.buf i).dev = rootdev ∧ (s.buf i).blockno = n

section

variable {s : Blocks} {pinned : List Nat} {held : List Bi}

lemma Supply.card_pinned (h : Supply s pinned held) :
    (Finset.univ.filter fun i => inLog (s.buf i) pinned = true).card ≤ pinned.length := by
  classical
  calc (Finset.univ.filter fun i => inLog (s.buf i) pinned = true).card
      = ((Finset.univ.filter fun i => inLog (s.buf i) pinned = true).image fun i => (s.buf i).blockno).card := by
        refine (Finset.card_image_of_injOn ?_).symm
        intro i hi j hj hEq
        obtain ⟨hi, -⟩ := inLog_iff.mp (mem_filter.mp hi).2
        obtain ⟨hj, -⟩ := inLog_iff.mp (mem_filter.mp hj).2
        exact h.unique i j hi hj hEq
    _ ≤ pinned.toFinset.card := by
        refine card_le_card ?_
        intro n hn
        obtain ⟨i, hi, rfl⟩ := Finset.mem_image.mp hn
        exact mem_toFinset.mpr (inLog_iff.mp (mem_filter.mp hi).2).2
    _ ≤ pinned.length := pinned.toFinset_card_le

lemma Supply.exists_free (h : Supply s pinned held) (hRoom : pinned.length + held.length < nbuf) :
    ∃ i, (s.buf i).refcnt = 0 := by
  classical
  by_contra hNone
  have hAll : (Finset.univ : Finset Bi) ⊆
      (Finset.univ.filter fun i => inLog (s.buf i) pinned = true) ∪ held.toFinset := by
    intro i _
    rw [Finset.mem_union, mem_filter, mem_toFinset]
    by_contra hOut
    rw [not_or] at hOut
    apply hNone
    refine ⟨i, ?_⟩
    have hNot : inLog (s.buf i) pinned = false := by simpa using hOut.1
    rw [h.refcnt i, List.count_eq_zero.mpr hOut.2, hNot]
    rfl
  have hCard := (card_le_card hAll).trans (Finset.card_union_le _ _)
  rw [Finset.card_univ, Fintype.card_fin] at hCard
  have hPinned := h.card_pinned
  have hHeld := held.toFinset_card_le
  omega

lemma Supply.full (h : Supply s pinned held) (hNodup : pinned.Nodup) (hFull : nbuf ≤ pinned.length) (i : Bi) :
    inLog (s.buf i) pinned = true := by
  classical
  have hImage : pinned.toFinset ⊆
      (Finset.univ.filter fun i => inLog (s.buf i) pinned = true).image fun i => (s.buf i).blockno := by
    intro n hn
    obtain ⟨j, hj, rfl⟩ := h.cached n (mem_toFinset.mp hn)
    exact Finset.mem_image_of_mem _
      (mem_filter.mpr ⟨Finset.mem_univ j, inLog_iff.mpr ⟨hj, mem_toFinset.mp hn⟩⟩)
  have hCard := (card_le_card hImage).trans Finset.card_image_le
  rw [List.toFinset_card_of_nodup hNodup] at hCard
  have hAll : (Finset.univ.filter fun i => inLog (s.buf i) pinned = true) = Finset.univ := by
    apply Finset.eq_univ_of_card
    have hLe := Finset.card_filter_le Finset.univ fun i : Bi => inLog (s.buf i) pinned = true
    rw [Finset.card_univ, Fintype.card_fin] at hLe
    rw [Fintype.card_fin]
    omega
  have hi : i ∈ Finset.univ.filter fun i => inLog (s.buf i) pinned = true := by
    rw [hAll]
    exact Finset.mem_univ i
  exact (mem_filter.mp hi).2

end

/-! ## What commit does to the supply -/

section

variable {s : Blocks} {pinned : List Nat} {held : List Bi} {me : Nat} {b : Bi}

def NotBget (e : Stop) : Prop := e ≠ .bget

lemma Supply.recount {t : Blocks} {pinned' : List Nat} {held' : List Bi} (h : Supply s pinned held)
    (hListed : Listed t) (hDev : ∀ i, (t.buf i).dev = (s.buf i).dev)
    (hNo : ∀ i, (t.buf i).blockno = (s.buf i).blockno) (hPinned : ∀ n ∈ pinned', n ∈ pinned)
    (hRefcnt : ∀ i, (t.buf i).refcnt = held'.count i + (inLog (s.buf i) pinned').toNat) : Supply t pinned' held' := by
  refine ⟨hListed, ?_, ?_, ?_⟩
  · grind [h.unique]
  · intro i
    rw [hRefcnt i, inLog, inLog, hDev, hNo]
  · grind [h.cached]

lemma bget_supply {n : Nat} (h : Supply s pinned held) (hRoom : n ∈ pinned ∨ pinned.length + held.length < nbuf) :
    Prog.wp (bget rootdev n) NotBget (fun b t => Supply t pinned (b :: held) ∧ (t.buf b).dev = rootdev ∧
      (t.buf b).blockno = n ∧ t.log = s.log) s := by
  have hSome : bget rootdev n s ≠ .error .bget := by
    obtain ⟨L, hPerm, hRing⟩ := h.listed
    have hFuel : L.length < nbuf + 1 := by
      rw [hPerm.length_eq, List.length_finRange]
      exact Nat.lt_succ_self nbuf
    have hRun : Prog.wp (bget rootdev n) NotBget (fun _ _ => True) s := by
      simp only [bget, wp_bind, wp_read, id_eq]
      rw [hRing.walk_next _ hFuel]
      cases hFind : L.find? fun b => (s.buf b).dev == rootdev && (s.buf b).blockno == n with
      | some c => simp only [modBuf, wp_bind, wp_update, wp_pure]
      | none =>
        dsimp only
        rw [hRing.walk_prev _ hFuel]
        cases hFree : L.reverse.find? fun b => (s.buf b).refcnt == 0 with
        | some c => simp only [modBuf, wp_bind, wp_update, wp_pure]
        | none =>
          exfalso
          rcases hRoom with hIn | hRoom
          · grind [h.cached]
          · obtain ⟨i, hi⟩ := h.exists_free hRoom
            have hNot := (Listed.find (L.reverse_perm.trans hPerm)).2 hFree i
            rw [hi] at hNot
            cases hNot
    exact fun hEq => wp_error hRun hEq rfl
  cases hGet : bget rootdev n s with
  | error e =>
    rw [Prog.wp, hGet]
    rintro rfl
    exact hSome hGet
  | ok r =>
    obtain ⟨b, t⟩ := r
    rw [Prog.wp, hGet]
    dsimp only
    rcases bget_cases h.listed hGet with ⟨hDev, hNo, rfl⟩ | ⟨hNew, hZero, rfl⟩
    · refine ⟨h.recount h.listed (setBuf_field Buf.dev rfl) (setBuf_field Buf.blockno rfl) (fun _ hm => hm) ?_,
        ?_, ?_, rfl⟩
      · intro i
        rw [setBuf_apply, List.count_cons]
        by_cases hi : i = b
        · subst hi
          simp only [if_true, h.refcnt i, beq_self_eq_true]
          omega
        · rw [if_neg hi, h.refcnt i, if_neg (by simpa using Ne.symm hi), add_zero]
      · rw [setBuf_same]
        exact hDev
      · rw [setBuf_same]
        exact hNo
    · have hb := h.refcnt b
      rw [hZero] at hb
      have hNotHeld : held.count b = 0 := by omega
      have hNotPinned : ¬ ((s.buf b).dev = rootdev ∧ (s.buf b).blockno ∈ pinned) := by
        intro hIn
        rw [inLog_iff.mpr hIn] at hb
        exact absurd hb (by simp)
      have hNew' : n ∉ pinned := by
        intro hn
        obtain ⟨i, hi⟩ := h.cached n hn
        exact hNew i hi
      refine ⟨⟨h.listed, ?_, ?_, ?_⟩, by rw [setBuf_same], by rw [setBuf_same], rfl⟩
      · grind [h.unique, setBuf_apply]
      · intro i
        rw [setBuf_apply, List.count_cons]
        by_cases hi : i = b
        · subst hi
          rw [if_pos rfl, hNotHeld, inLog]
          simp [hNew']
        · rw [if_neg hi, h.refcnt i, if_neg (by simpa using Ne.symm hi), add_zero]
      · intro m hm
        obtain ⟨i, hi, hEq⟩ := h.cached m hm
        have hib : i ≠ b := by
          rintro rfl
          exact hNotPinned ⟨hi, hEq ▸ hm⟩
        exact ⟨i, by rw [setBuf_of_ne _ _ hib]; exact ⟨hi, hEq⟩⟩

structure Same (s t : Blocks) : Prop where
  links : t.links = s.links
  log : t.log = s.log
  dev : ∀ i, (t.buf i).dev = (s.buf i).dev
  blockno : ∀ i, (t.buf i).blockno = (s.buf i).blockno
  refcnt : ∀ i, (t.buf i).refcnt = (s.buf i).refcnt

lemma Same.refl (s : Blocks) : Same s s := ⟨rfl, rfl, fun _ => rfl, fun _ => rfl, fun _ => rfl⟩

lemma Same.setBuf {v : Buf} (hDev : v.dev = (s.buf b).dev) (hNo : v.blockno = (s.buf b).blockno)
    (hRefcnt : v.refcnt = (s.buf b).refcnt) : Same s (s.setBuf b v) :=
  ⟨rfl, rfl, setBuf_field Buf.dev hDev, setBuf_field Buf.blockno hNo, setBuf_field Buf.refcnt hRefcnt⟩

lemma Same.supply {t : Blocks} (h : Same s t) (hs : Supply s pinned held) : Supply t pinned held := by
  refine hs.recount ?_ h.dev h.blockno (fun _ hn => hn) fun i => (h.refcnt i).trans (hs.refcnt i)
  obtain ⟨L, hPerm, hRing⟩ := hs.listed
  exact ⟨L, hPerm, h.links ▸ hRing⟩

lemma acquiresleep_same : Prog.wp (acquiresleep me b) NotBget (fun _ t => Same s t) s := by
  simp only [acquiresleep, getBuf, wp_bind, wp_read]
  split
  · rw [wp_stop]
    exact nofun
  · simp only [modBuf, wp_update]
    exact Same.setBuf rfl rfl rfl

lemma ramdiskRw_same {write : Bool} : Prog.wp (ramdiskRw me b write) NotBget (fun _ t => Same s t) s := by
  simp only [ramdiskRw, getBuf, wp_bind, wp_read, id_eq]
  split
  · rw [wp_stop]
    exact nofun
  · split
    · rw [wp_stop]
      exact nofun
    · split
      · rw [wp_update]
        exact ⟨rfl, rfl, fun _ => rfl, fun _ => rfl, fun _ => rfl⟩
      · simp only [modBuf, wp_update]
        exact Same.setBuf rfl rfl rfl

lemma fill_same : Prog.wp (fill me b) NotBget (fun _ t => Same s t) s := by
  simp only [fill, getBuf, wp_bind, wp_read]
  split
  · exact ramdiskRw_same
  · rw [wp_pure]
    exact Same.refl s

lemma bwrite_same : Prog.wp (bwrite me b) NotBget (fun _ t => Same s t) s := by
  simp only [bwrite, getBuf, wp_bind, wp_read]
  split
  · rw [wp_stop]
    exact nofun
  · exact ramdiskRw_same

lemma copyData_same {c : Bi} : Prog.wp (copyData b c) NotBget (fun _ t => Same s t) s := by
  simp only [copyData, getBuf, modBuf, wp_bind, wp_read, wp_update]
  exact Same.setBuf rfl rfl rfl

lemma bread_supply {n : Nat} (h : Supply s pinned held) (hRoom : n ∈ pinned ∨ pinned.length + held.length < nbuf) :
    Prog.wp (bread me rootdev n) NotBget (fun b t => Supply t pinned (b :: held) ∧ (t.buf b).dev = rootdev ∧
      (t.buf b).blockno = n ∧ t.log = s.log) s := by
  simp only [bread, wp_bind]
  apply wp_post (bget_supply h hRoom)
  rintro b s1 ⟨h1, hDev, hNo, hLog⟩
  apply wp_post acquiresleep_same
  intro _ s2 h2
  apply wp_post fill_same
  intro _ s3 h3
  rw [wp_pure]
  exact ⟨h3.supply (h2.supply h1), (h3.dev b).trans ((h2.dev b).trans hDev),
    (h3.blockno b).trans ((h2.blockno b).trans hNo), h3.log.trans (h2.log.trans hLog)⟩

lemma brelse_supply (h : Supply s pinned held) (hb : b ∈ held) :
    Prog.wp (brelse me b) NotBget (fun _ t => Supply t pinned (held.erase b) ∧ t.log = s.log) s := by
  have hLock : Prog.wp (brelseLock me b) NotBget (fun _ t => Same s t) s := by
    simp only [brelseLock, getBuf, wp_bind, wp_read]
    split
    · rw [wp_stop]
      exact nofun
    · simp only [releasesleep, modBuf, wp_update]
      exact Same.setBuf rfl rfl rfl
  simp only [brelse, wp_bind]
  apply wp_post hLock
  intro _ s1 hSame
  have h1 := hSame.supply h
  have hTotal : Prog.wp (bput b) (fun _ => False) (fun _ _ => True) s1 := by
    simp only [bput, modBuf, getBuf, wp_bind, wp_update, wp_read]
    split
    · rw [wp_update]
      trivial
    · rw [wp_pure]
      trivial
  cases hPut : bput b s1 with
  | error e => exact (wp_error hTotal hPut).elim
  | ok r =>
    obtain ⟨_, t⟩ := r
    rw [Prog.wp, hPut]
    dsimp only
    have hListed := h1.listed.bput hPut
    obtain ⟨links, -, rfl⟩ := bput_cases hPut
    refine ⟨h1.recount hListed (setBuf_field Buf.dev rfl) (setBuf_field Buf.blockno rfl) (fun _ hn => hn) ?_,
      hSame.log⟩
    intro i
    dsimp only
    rw [setBuf_apply, List.count_erase]
    by_cases hi : i = b
    · grind [h1.refcnt]
    · rw [if_neg hi, h1.refcnt i, if_neg (by simpa using Ne.symm hi), Nat.sub_zero]

lemma bunpin_supply {n : Nat} (h : Supply s pinned held) (hNodup : pinned.Nodup) (hn : n ∈ pinned)
    (hDev : (s.buf b).dev = rootdev) (hNo : (s.buf b).blockno = n) :
    Prog.wp (bunpin b) NotBget (fun _ t => Supply t (pinned.erase n) held ∧ t.log = s.log) s := by
  simp only [bunpin, modBuf, wp_update]
  refine ⟨h.recount h.listed (setBuf_field Buf.dev rfl) (setBuf_field Buf.blockno rfl)
    (fun m hm => List.mem_of_mem_erase hm) fun i => ?_, rfl⟩
  rw [setBuf_apply]
  by_cases hi : i = b
  · subst hi
    have hBefore : inLog (s.buf i) pinned = true := inLog_iff.mpr ⟨hDev, hNo ▸ hn⟩
    have hAfter : inLog (s.buf i) (pinned.erase n) = false := by
      rw [← Bool.not_eq_true, inLog_iff, hNo]
      exact fun hStill => hNodup.not_mem_erase hStill.2
    simp only [if_true, h.refcnt i, hBefore, hAfter, Bool.toNat_true, Bool.toNat_false]
    omega
  · have hSame : inLog (s.buf i) (pinned.erase n) = inLog (s.buf i) pinned := by
      rw [Bool.eq_iff_iff, inLog_iff, inLog_iff]
      constructor
      · exact fun hStill => ⟨hStill.1, List.mem_of_mem_erase hStill.2⟩
      · grind [h.unique]
    rw [if_neg hi, h.refcnt i, hSame]

lemma writeLogAt_supply {x : Nat × Nat} (h : Supply s pinned []) (hx : x.1 ∈ pinned) (hRoom : pinned.length < nbuf) :
    Prog.wp (writeLogAt me x) NotBget (fun _ t => Supply t pinned [] ∧ t.log = s.log) s := by
  simp only [writeLogAt, wp_bind, wp_read]
  apply wp_post (bread_supply h (.inr hRoom))
  rintro c s1 ⟨h1, -, -, hLog1⟩
  apply wp_post (bread_supply h1 (.inl hx))
  rintro d s2 ⟨h2, -, -, hLog2⟩
  apply wp_post copyData_same
  intro _ s3 h3
  apply wp_post bwrite_same
  intro _ s4 h4
  apply wp_post (brelse_supply (h4.supply (h3.supply h2)) mem_cons_self)
  rintro _ s5 ⟨h5, hLog5⟩
  rw [erase_cons_head] at h5
  apply wp_post (brelse_supply h5 mem_cons_self)
  rintro _ s6 ⟨h6, hLog6⟩
  rw [erase_cons_head] at h6
  exact ⟨h6, hLog6.trans (hLog5.trans (h4.log.trans (h3.log.trans (hLog2.trans hLog1))))⟩

lemma writeHead_supply (h : Supply s pinned []) (hRoom : pinned.length < nbuf) :
    Prog.wp (writeHead me) NotBget (fun _ t => Supply t pinned [] ∧ t.log = s.log) s := by
  simp only [writeHead, wp_bind, wp_read]
  apply wp_post (bread_supply h (.inr hRoom))
  rintro c s1 ⟨h1, -, -, hLog1⟩
  simp only [modBuf, wp_update]
  have h2 := Same.setBuf (s := s1) (b := c)
    (v := { s1.buf c with data := putHead (s1.buf c).data s.log.lh }) rfl rfl rfl
  apply wp_post bwrite_same
  intro _ s3 h3
  apply wp_post (brelse_supply (h3.supply (h2.supply h1)) mem_cons_self)
  rintro _ s4 ⟨h4, hLog4⟩
  rw [erase_cons_head] at h4
  exact ⟨h4, hLog4.trans (h3.log.trans (h2.log.trans hLog1))⟩

lemma installAt_supply {x : Nat × Nat} {rest : List Nat} (h : Supply s (x.1 :: rest) [])
    (hNodup : (x.1 :: rest).Nodup) (hRoom : (x.1 :: rest).length < nbuf) :
    Prog.wp (installAt me false x) NotBget (fun _ t => Supply t rest [] ∧ t.log = s.log) s := by
  simp only [installAt, wp_bind, wp_read, Bool.not_false, if_true]
  apply wp_post (bread_supply h (.inr hRoom))
  rintro c s1 ⟨h1, -, -, hLog1⟩
  apply wp_post (bread_supply h1 (.inl mem_cons_self))
  rintro d s2 ⟨h2, hDev, hNo, hLog2⟩
  apply wp_post copyData_same
  intro _ s3 h3
  apply wp_post bwrite_same
  intro _ s4 h4
  apply wp_post (bunpin_supply (h4.supply (h3.supply h2)) hNodup mem_cons_self
    ((h4.dev d).trans ((h3.dev d).trans hDev)) ((h4.blockno d).trans ((h3.blockno d).trans hNo)))
  rintro _ s5 ⟨h5, hLog5⟩
  rw [erase_cons_head] at h5
  apply wp_post (brelse_supply h5 (List.mem_cons_of_mem d mem_cons_self))
  rintro _ s6 ⟨h6, hLog6⟩
  have hLeft : [d, c].erase c = [d] := by
    grind
  rw [hLeft] at h6
  apply wp_post (brelse_supply h6 mem_cons_self)
  rintro _ s7 ⟨h7, hLog7⟩
  rw [erase_cons_head] at h7
  exact ⟨h7, hLog7.trans (hLog6.trans (hLog5.trans (h4.log.trans (h3.log.trans (hLog2.trans hLog1)))))⟩

lemma commit_supply (h : Supply s s.log.lh []) (hNodup : s.log.lh.Nodup) (hRoom : s.log.lh.length < nbuf) :
    Prog.wp (commit me) NotBget (fun _ _ => True) s := by
  simp only [commit, wp_bind, wp_read, id_eq]
  split
  · simp only [writeLog, installTrans, wp_bind, wp_read, id_eq]
    have hWriteLog : Prog.wp (Prog.eachM (writeLogAt me) s.log.lh.zipIdx) NotBget
        (fun _ t => Supply t s.log.lh [] ∧ t.log = s.log) s := by
      apply wp_eachM_inv (I := fun t => Supply t s.log.lh [] ∧ t.log = s.log)
      · rintro x hx t ⟨ht, hLog⟩
        apply wp_post (writeLogAt_supply ht ?_ hRoom)
        · exact fun _ u hu => ⟨hu.1, hu.2.trans hLog⟩
        · have hFst := List.mem_map_of_mem (f := Prod.fst) hx
          rwa [List.zipIdx_map_fst] at hFst
      · exact ⟨h, rfl⟩
    apply wp_post hWriteLog
    rintro _ s1 ⟨h1, hLog1⟩
    apply wp_post (writeHead_supply h1 hRoom)
    rintro _ s2 ⟨h2, hLog2⟩
    rw [hLog2, hLog1]
    have hInstall : Prog.wp (Prog.eachM (installAt me false) s.log.lh.zipIdx) NotBget
        (fun _ t => Supply t [] []) s2 := by
      apply wp_post (wp_eachM (I := fun rest t => Supply t (rest.map Prod.fst) [] ∧
        (rest.map Prod.fst).Nodup ∧ (rest.map Prod.fst).length < nbuf) ?_ _ _ ?_)
      · exact fun _ t ht => ht.1
      · rintro x rest t ⟨ht, hRest, hLength⟩
        rw [List.map_cons] at ht hRest hLength
        apply wp_post (installAt_supply ht hRest hLength)
        rintro _ u ⟨hu, -⟩
        exact ⟨hu, (List.nodup_cons.mp hRest).2, Nat.lt_of_succ_lt hLength⟩
      · rw [List.zipIdx_map_fst]
        exact ⟨h2, hNodup, hRoom⟩
    apply wp_post hInstall
    intro _ s3 h3
    rw [wp_update]
    have h4 : Supply { s3 with log := { s3.log with lh := [] } } [] [] := ⟨h3.listed, h3.unique, h3.refcnt, h3.cached⟩
    apply wp_post (writeHead_supply h4 (by decide))
    exact fun _ _ _ => trivial
  · rw [wp_pure]
    trivial

end

/-! ## Commits of a run -/

section

variable {s t : Sys} {pid : Nat}

def OnlyLogPins (s : Sys) (a : Act) : Prop := OnDisk s a ∧ ∀ r, a ≠ .bpin r

abbrev Sys.Runs : Sys → Prop := Transition.Reachable Sys.Fresh (fun s a t => s.next a = some t) OnlyLogPins

lemma Sys.Runs.coherent (h : s.Runs) : Coherent s :=
  Sys.Reaches.coherent (h.mono (fun _ hFresh => hFresh) fun _ _ ha => ha.1)

lemma section_pins {m : BM Unit} {f : Blocks → Sys} (h : s.section m f = some t) (hf : ∀ blk, (f blk).pins = s.pins) :
    t.pins = s.pins := by
  obtain ⟨blk, -, rfl⟩ := section_some h
  exact hf blk

lemma next_pins {a : Act} (h : s.next a = some t) (ha : ∀ r, a ≠ .bpin r) (hs : ∀ b, s.pins b = 0) :
    ∀ b, t.pins b = 0 := by
  have hSame : t.pins = s.pins → ∀ b, t.pins b = 0 := by
    intro hEq b
    rw [hEq]
    exact hs b
  cases a with
  | bpin r => exact absurd rfl (ha r)
  | bunpin b =>
    simp only [Sys.next, hs b, Nat.lt_irrefl, if_false] at h
    cases h
  | bget | beginOp =>
    simp only [Sys.next] at h
    split at h <;> cases h <;> exact hs
  | endOp pid =>
    simp only [Sys.next] at h
    split at h
    · split at h <;> cases h <;> exact hs
    · cases h
  | acquire | fill | store | bwrite | logWrite | unpin | release | put | clear | reopen =>
    grind [section_pins, Sys.next]

lemma Sys.Runs.no_pins (h : s.Runs) : ∀ b, s.pins b = 0 := by
  refine h.invariant (I := fun s => ∀ b, s.pins b = 0) (fun _ hFresh => hFresh.rest.2.1) ?_
  exact fun _ _ _ hs ha hNext => next_pins hNext ha.2 hs

lemma commit_start (hEnd : s.next (.endOp pid) = some t) (hCommit : t.committer = some pid) (hs : Coherent s) :
    s.committer = none ∧ t.blk.buf = s.blk.buf ∧ t.blk.links = s.blk.links ∧ t.blk.log.lh = s.blk.log.lh := by
  have hIdle : ∀ {r : Bool} {blk : Blocks}, onLog Blk.endOp s.blk = .ok (r, blk) →
      s.committer = none ∧ blk.buf = s.blk.buf ∧ blk.links = s.blk.links ∧ blk.log.lh = s.blk.log.lh := by
    intro r blk hOk
    obtain ⟨hLog, hBlk⟩ := onLog_ok hOk
    obtain ⟨hFalse, hCases⟩ := endOp_cases hLog
    refine ⟨?_, by rw [hBlk], by rw [hBlk], ?_⟩
    · rw [hs.protocol.committing] at hFalse
      simpa using hFalse
    · rcases hCases with ⟨-, -, hNew⟩ | ⟨-, -, hNew⟩ <;> rw [hNew]
  simp only [Sys.next] at hEnd
  split at hEnd
  · grind
  · cases hEnd

lemma commit_start_supply (h : s.Runs) (hEnd : s.next (.endOp pid) = some t) (hCommit : t.committer = some pid)
    (hFree : s.refs = []) : Supply t.blk t.blk.log.lh [] ∧ t.blk.log.lh.Nodup := by
  have hs := h.coherent
  obtain ⟨hIdle, hBuf, hLinks, hLh⟩ := commit_start hEnd hCommit hs
  have hMem : ∀ n, n ∈ s.logPins ↔ n ∈ s.blk.log.lh :=
    fun n => ⟨hs.protocol.logged n, hs.protocol.pinned hIdle n⟩
  rw [hLh]
  refine ⟨⟨?_, ?_, ?_, ?_⟩, hs.protocol.nodup.1⟩
  · obtain ⟨L, hPerm, hRing⟩ := hs.listed
    exact ⟨L, hPerm, hLinks ▸ hRing⟩
  · rw [hBuf]
    exact hs.content.unique
  · intro i
    have hCount := hs.counted.refcnt i
    rw [hFree, Sys.pinCount, h.no_pins i] at hCount
    rw [hBuf, hCount, inLog, inLog]
    simp only [List.countP_nil, List.count_nil, hMem]
    omega
  · intro n hn
    obtain ⟨i, hi, hEq, -⟩ := hs.content.pinned n ((hMem n).mpr hn)
    rw [hBuf]
    exact ⟨i, hi, hEq⟩

lemma commit_stops {k : Blocks} {me : Nat} (h : Supply k k.log.lh []) (hNodup : k.log.lh.Nodup)
    (hFull : nbuf ≤ k.log.lh.length) (hStart : k.start + 1 ∉ k.log.lh) : commit me k = .error .bget := by
  have hPinned := h.full hNodup hFull
  have hGet : bget rootdev (k.start + 1) k = .error .bget := by
    obtain ⟨L, hPerm, hRing⟩ := h.listed
    have hFuel : L.length < nbuf + 1 := by
      rw [hPerm.length_eq, List.length_finRange]
      exact Nat.lt_succ_self nbuf
    have hNext : L.find? (fun b => (k.buf b).dev == rootdev && (k.buf b).blockno == k.start + 1) = none := by
      rw [List.find?_eq_none]
      intro b _ hb
      simp only [Bool.and_eq_true, beq_iff_eq] at hb
      exact hStart (hb.2 ▸ (inLog_iff.mp (hPinned b)).2)
    have hPrev : L.reverse.find? (fun b => (k.buf b).refcnt == 0) = none := by
      grind [h.refcnt]
    simp only [bget, Prog.read, bind, Prog.seq, id_eq]
    rw [hRing.walk_next _ hFuel, hNext]
    dsimp only
    rw [hRing.walk_prev _ hFuel, hPrev]
    rfl
  obtain ⟨n, rest, hLh⟩ : ∃ n rest, k.log.lh = n :: rest := by
    cases hLh : k.log.lh with
    | nil =>
      rw [hLh] at hFull
      exact absurd hFull (by decide)
    | cons n rest => exact ⟨n, rest, rfl⟩
  have hBread : bread me rootdev (k.start + 0 + 1) k = .error .bget := by
    simp only [bread, bind, Prog.seq, add_zero, hGet]
  simp only [commit, writeLog, writeLogAt, Prog.read, bind, Prog.seq, id_eq, hLh, List.zipIdx_cons, Prog.eachM, hBread,
    List.length_cons, gt_iff_lt, Nat.zero_lt_succ, if_true]

/-- During the commit of the last `end_op`, with no buffer in use, `bget` finds a buffer
as long as the log is not as long as the list of buffers, and otherwise stops the kernel. -/
theorem commit_finds_buffers (h : s.Runs) (hEnd : s.next (.endOp pid) = some t) (hCommit : t.committer = some pid)
    (hFree : s.refs = []) :
    (t.blk.log.lh.length < nbuf → commit pid t.blk ≠ .error .bget) ∧
    (nbuf ≤ t.blk.log.lh.length → t.blk.start + 1 ∉ t.blk.log.lh → commit pid t.blk = .error .bget) := by
  obtain ⟨hSupply, hNodup⟩ := commit_start_supply h hEnd hCommit hFree
  constructor
  · intro hRoom hStop
    exact wp_error (commit_supply hSupply hNodup hRoom) hStop rfl
  · exact commit_stops hSupply hNodup

end

namespace Sample

/-- Process `p` logs block `n` with buffer `i`. -/
def logBlock (p n : Nat) (i : Bi) : List Act :=
  [.bget p n, .acquire ⟨p, n, i, .waiting⟩, .fill ⟨p, n, i, .locked⟩, .store ⟨p, n, i, .ready .clean⟩ (Bytes.fill 7),
    .logWrite ⟨p, n, i, .ready .modified⟩, .release ⟨p, n, i, .ready .logged⟩, .put ⟨p, n, i, .leaving⟩]

/-- Processes 1, 2 and 3 log `n` blocks in turn, from block 100 on. -/
def logBlocks (n : Nat) : List Act :=
  [.beginOp 1, .beginOp 2, .beginOp 3] ++
    ((List.finRange nbuf).take n).flatMap (fun i => logBlock (i.val % 3 + 1) (100 + i.val) i) ++ [.endOp 1, .endOp 2]

lemma logBlocks_allowed (n : Nat) : ∀ a ∈ logBlocks n, ∀ s, OnlyLogPins s a := by
  intro a ha s
  simp only [logBlocks, logBlock, List.mem_append, List.mem_flatMap, List.mem_cons, List.not_mem_nil, or_false] at ha
  rcases ha with ((rfl | rfl | rfl) | ⟨i, -, hi⟩) | (rfl | rfl)
  · exact ⟨trivial, fun r h => nomatch h⟩
  · exact ⟨trivial, fun r h => nomatch h⟩
  · exact ⟨trivial, fun r h => nomatch h⟩
  · rcases hi with rfl | rfl | rfl | rfl | rfl | rfl | rfl
    · exact ⟨(Nat.add_lt_add_left i.isLt 100).trans (by decide), fun r h => nomatch h⟩
    all_goals exact ⟨trivial, fun r h => nomatch h⟩
  · exact ⟨trivial, fun r h => nomatch h⟩
  · exact ⟨trivial, fun r h => nomatch h⟩

/-- The three processes have logged `n` blocks and the last of them ends its operation. -/
lemma logBlocks_commit {n : Nat} (hRun : ((Transition.run Sys.next (logBlocks n) fresh).any fun s =>
      decide (s.refs = []) && (s.next (.endOp 3)).any fun t =>
        decide (t.committer = some 3) && decide (t.blk.log.lh.length = n) &&
          decide (t.blk.start + 1 ∉ t.blk.log.lh)) = true) :
    ∃ s t : Sys, s.Runs ∧ s.next (.endOp 3) = some t ∧ t.committer = some 3 ∧ s.refs = [] ∧
      t.blk.log.lh.length = n ∧ t.blk.start + 1 ∉ t.blk.log.lh := by
  cases hs : Transition.run Sys.next (logBlocks n) fresh with
  | none =>
    rw [hs] at hRun
    cases hRun
  | some s =>
    rw [hs, Option.any_some, Bool.and_eq_true] at hRun
    cases ht : s.next (.endOp 3) with
    | none =>
      rw [ht] at hRun
      cases hRun.2
    | some t =>
      rw [ht, Option.any_some, Bool.and_eq_true, Bool.and_eq_true] at hRun
      obtain ⟨hRefs, ⟨hCommit, hLength⟩, hStart⟩ := hRun
      have hRuns : s.Runs := by
        apply Transition.Reachable.of_run (fun _ _ _ hNext => hNext) _ _ (.start fresh_fresh) hs
        exact fun a ha s' => logBlocks_allowed n a ha s'
      exact ⟨s, t, hRuns, ht, of_decide_eq_true hCommit, of_decide_eq_true hRefs, of_decide_eq_true hLength,
        of_decide_eq_true hStart⟩

end Sample

theorem commit_finds_buffers_two_blocks : ∃ s t : Sys, s.Runs ∧ s.next (.endOp 3) = some t ∧ t.blk.log.lh.length = 2 ∧
    commit 3 t.blk ≠ .error .bget := by
  obtain ⟨s, t, hRuns, hEnd, hCommit, hFree, hLength, -⟩ := Sample.logBlocks_commit (n := 2) (by decide +kernel)
  have hRoom : t.blk.log.lh.length < nbuf := by
    rw [hLength]
    decide
  exact ⟨s, t, hRuns, hEnd, hLength, (commit_finds_buffers hRuns hEnd hCommit hFree).1 hRoom⟩

/-- Three operations log ten blocks each: `write_log` finds no buffer for the first block of the log. -/
theorem commit_full_log_stops : ∃ s t : Sys, s.Runs ∧ s.next (.endOp 3) = some t ∧ t.committer = some 3 ∧ s.refs = [] ∧
    t.blk.log.lh.length = logblocks ∧ commit 3 t.blk = .error .bget := by
  obtain ⟨s, t, hRuns, hEnd, hCommit, hFree, hLength, hStart⟩ := Sample.logBlocks_commit (n := 30) (by decide +kernel)
  obtain ⟨hSupply, hNodup⟩ := commit_start_supply hRuns hEnd hCommit hFree
  exact ⟨s, t, hRuns, hEnd, hCommit, hFree, hLength, commit_stops hSupply hNodup hLength.ge hStart⟩

end Xv6K230.Blk
