import Xv6K230.Fs.Budget
import Xv6K230.Fs.Lifetime
import Xv6K230.Fs.Transfer

/-! # Inode operations within a log quota

The operations that calls are made of, on consistent states, together with what they may log.
-/

namespace Xv6K230.Fs

open Prog

/-- What a call may log: anything, or the blocks `F` and up to `r` others. -/
inductive Quota where
  | free
  | of (F : List Nat) (r : Nat)

namespace Quota

def Holds (s : FsState) : Quota → Prop
  | free => True
  | of F r => ∃ l, l.length ≤ r ∧ Budget (l ++ F) s

def Has (b : Nat) : Quota → Prop
  | free => True
  | of F _ => b ∈ F

def Room (n : Nat) : Quota → Prop
  | free => True
  | of F r => F.length + r + n < logblocks

def use (n : Nat) : Quota → Quota
  | free => free
  | of F r => of F (r + n)

def add (b : Nat) : Quota → Quota
  | free => free
  | of F r => of (b :: F) r

def HasMap (q : Quota) (sb : Superblock) : Prop := ∀ c < sb.size, q.Has (sb.bblock c)

def Tame (q : Quota) (E : Stop → Prop) : Prop := ∀ e, Mild e → (q = free ∨ LogFits e) → E e

variable {q : Quota} {E : Stop → Prop} {s t : FsState} {sb : Superblock} {b n m : Nat}

lemma Holds.congr (h : q.Holds s) (ht : SameLog s t) : q.Holds t := by
  cases q with
  | free => trivial
  | of F r =>
    obtain ⟨l, hl, hBudget⟩ := h
    exact ⟨l, hl, hBudget.congr ht.1 ht.2⟩

lemma Holds.use (h : q.Holds s) (n : Nat) : (q.use n).Holds s := by
  cases q with
  | free => trivial
  | of F r =>
    obtain ⟨l, hl, hBudget⟩ := h
    exact ⟨l, hl.trans (Nat.le_add_right ..), hBudget⟩

lemma Holds.add (h : q.Holds s) (b : Nat) : (q.add b).Holds s := by
  cases q with
  | free => trivial
  | of F r =>
    obtain ⟨l, hl, hBudget⟩ := h
    refine ⟨l, hl, hBudget.mono fun c hc => ?_⟩
    rcases List.mem_append.mp hc with hc | hc
    · exact List.mem_append_left _ hc
    · exact List.mem_append_right _ (List.mem_cons_of_mem _ hc)

@[simp] lemma use_zero : q.use 0 = q := by
  cases q <;> rfl

lemma use_use : (q.use n).use m = q.use (n + m) := by
  cases q with
  | free => rfl
  | of F r => exact congrArg (of F) (Nat.add_assoc ..)

@[simp] lemma has_use : (q.use n).Has b ↔ q.Has b := by
  cases q <;> rfl

lemma has_add_self : (q.add b).Has b := by
  cases q with
  | free => trivial
  | of F r => exact List.mem_cons_self

lemma Has.add (h : q.Has b) (c : Nat) : (q.add c).Has b := by
  cases q with
  | free => trivial
  | of F r => exact List.mem_cons_of_mem _ h

@[simp] lemma hasMap_use : (q.use n).HasMap sb ↔ q.HasMap sb := by
  unfold HasMap
  simp only [has_use]

lemma HasMap.add (h : q.HasMap sb) (c : Nat) : (q.add c).HasMap sb := fun b hb => (h b hb).add c

lemma Room.use (h : q.Room (n + m)) : (q.use n).Room m := by
  cases q with
  | free => trivial
  | of F r =>
    unfold Room Quota.use at *
    simp only at *
    omega

lemma Room.add (h : q.Room (n + 1)) (b : Nat) : (q.add b).Room n := by
  cases q with
  | free => trivial
  | of F r =>
    unfold Room Quota.add at *
    simp only [List.length_cons] at *
    omega

lemma Room.mono (h : q.Room n) (hm : m ≤ n) : q.Room m := by
  cases q with
  | free => trivial
  | of F r =>
    unfold Room at *
    simp only at *
    omega

lemma Tame.calm (h : q.Tame E) : ∀ e, Mild e → LogFits e → E e := fun e he hl => h e he (.inr hl)

lemma Tame.use (h : q.Tame E) (n : Nat) : (q.use n).Tame E := by
  cases q with
  | free => exact h
  | of F r => exact fun e he hl => h e he (.inr (hl.resolve_left nofun))

lemma Tame.add (h : q.Tame E) (b : Nat) : (q.add b).Tame E := by
  cases q with
  | free => exact h
  | of F r => exact fun e he hl => h e he (.inr (hl.resolve_left nofun))

/-- What a section does to a state and what it logs are shown apart. The log starts within
some list `K` that is not longer than the quota. -/
lemma wp_within {α : Type} {M : FsM α} {Q : α → FsState → Prop} (hE : q.Tame E) (h : q.Holds s) (hView : wp M Mild Q s)
    (hLog : ∀ F r K, q = .of F r → Budget K s → K.length ≤ F.length + r → (∀ b ∈ F, b ∈ K) →
      wp M LogFits (fun _ t => ∃ l, l.length ≤ n ∧ Budget (l ++ K) t) s) :
    wp M E (fun a t => Q a t ∧ (q.use n).Holds t) s := by
  cases q with
  | free => exact wp_mono hView (fun e he => hE e he (.inl rfl)) fun _ _ hQ => ⟨hQ, trivial⟩
  | of F r =>
    obtain ⟨l, hl, hBudget⟩ := h
    have hLog := hLog F r (l ++ F) rfl hBudget (by rw [List.length_append]; omega) fun b hb => List.mem_append_right _ hb
    apply wp_mono (wp_both hView hLog)
    · exact fun e he => hE e he.1 (.inr he.2)
    · rintro a t ⟨hQ, l', hl', hBudget'⟩
      refine ⟨hQ, l' ++ l, ?_, ?_⟩
      · rw [List.length_append]
        omega
      · rw [List.append_assoc]
        exact hBudget'

end Quota

/-- A consistent state in the middle of a call with quota `q`. -/
structure Job (s : FsState) (sb : Superblock) (e : Ip → Entry) (f : Nat → Node) (q : Quota) : Prop where
  view : View s sb e f
  quota : q.Holds s

inductive Dropped (e : Ip → Entry) (f : Nat → Node) (ip : Ip) : (Ip → Entry) → (Nat → Node) → Prop where
  | free (hRef : (e ip).ref = 1) (hValid : (e ip).valid = true) (hLink : (f (e ip).inum).nlink = 0) :
      Dropped e f ip (Function.update e ip { e ip with ref := 0, valid := false }) (Function.update f (e ip).inum Node.free)
  | keep (h : ¬ ((e ip).ref = 1 ∧ (e ip).valid = true ∧ (f (e ip).inum).nlink = 0)) :
      Dropped e f ip (Function.update e ip { e ip with ref := (e ip).ref - 1 }) f

namespace Job

variable {E : Stop → Prop} {s t u : FsState} {sb : Superblock} {e : Ip → Entry} {f : Nat → Node} {q : Quota} {ip : Ip} {i n off : Nat}

lemma table (h : Job s sb e f q) : TableOk sb.ninodes e := h.view.table

lemma use (h : Job s sb e f q) (n : Nat) : Job s sb e f (q.use n) := ⟨h.view, h.quota.use n⟩

variable (hE : q.Tame E)

include hE

lemma iget (h : Job s sb e f q) (hi : 0 < i ∧ i < sb.ninodes) :
    wp (Fs.iget rootdev i) E (fun ip t => ∃ e', Took e i ip e' ∧ Job t sb e' f q) s := by
  apply wp_post (iget_spec hE.calm h.view hi)
  rintro ip t ⟨hLog, e', hTook, hView⟩
  exact ⟨e', hTook, hView, h.quota.congr hLog⟩

omit hE in
lemma idup (h : Job s sb e f q) (hRef : 0 < (e ip).ref) :
    wp (Fs.idup ip) E (fun r t => r = ip ∧ ∃ e', Took e (e ip).inum ip e' ∧ Job t sb e' f q) s := by
  apply wp_post (idup_spec h.view hRef)
  rintro _ t ⟨hr, hLog, e', hTook, hView⟩
  exact ⟨hr, e', hTook, hView, h.quota.congr hLog⟩

lemma ilock (h : Job s sb e f q) (hRef : 0 < (e ip).ref)
    (hNoType : (e ip).valid = false → (f (e ip).inum).type = 0 → E .ilockNoType) :
    wp (Fs.ilock ip) E (fun _ t => (e ip).locked = false ∧ (f (e ip).inum).type ≠ 0 ∧ Job t sb (lockedTable e ip) f q) s := by
  apply wp_post (ilock_spec hE.calm h.view hRef hNoType)
  rintro _ t ⟨hLog, hLocked, hView, hType⟩
  exact ⟨hLocked, hType, hView, h.quota.congr hLog⟩

lemma iunlock (h : Job s sb e f q) (hRef : 0 < (e ip).ref) :
    wp (Fs.iunlock ip) E (fun _ t => Job t sb (unlockedTable e ip) f q) s := by
  apply wp_post (iunlock_spec hE.calm h.view hRef)
  rintro _ t ⟨hLog, hView⟩
  exact ⟨hView, h.quota.congr hLog⟩

lemma itrunc (h : Job s sb e f q) (hRef : 0 < (e ip).ref) (hValid : (e ip).valid = true) (hMap : q.HasMap sb)
    (hInum : q.Has (sb.iblock (e ip).inum)) (hRoom : q.Room 0) :
    wp (Fs.itrunc ip) E (fun _ t =>
      Job t sb e (Function.update f (e ip).inum { f (e ip).inum with size := 0, data := fun _ => 0 }) q) s := by
  have hip := h.view.loaded hRef hValid
  refine wp_post (Quota.wp_within (n := 0) hE h.quota (itrunc_spec (fun _ he => he) h.view.consistent hip) ?_) ?_
  · rintro F r K rfl hBudget hLength hK
    have hsb := h.view.sb
    refine wp_post (itrunc_log h.view.consistent hip hBudget (fun c hc => ?_) ?_ ?_) fun _ t ht => ⟨[], le_refl 0, ht.budget⟩
    · rw [hsb] at hc ⊢
      exact hK _ (hMap c hc)
    · rw [hsb]
      exact hK _ hInum
    · exact lt_of_le_of_lt hLength hRoom
  · rintro _ t ⟨⟨hAlters, -⟩, hQuota⟩
    have hView := h.view.of_alters hAlters
    rw [h.view.files] at hView
    rw [Quota.use_zero] at hQuota
    exact ⟨hView, hQuota⟩

lemma setAttr (h : Job s sb e f q) (hRef : 0 < (e ip).ref) (hValid : (e ip).valid = true)
    (hInum : q.Has (sb.iblock (e ip).inum)) (hRoom : q.Room 0) (g : Dinode → Dinode) (G : Node → Node)
    (hg : ∀ d, (g d).type = d.type ∧ (g d).size = d.size ∧ (g d).addrs = d.addrs) (hG : ∀ d disk, (g d).node disk = G (d.node disk))
    {Q : Unit → FsState → Prop}
    (hQ : ∀ t, Job t sb e (Function.update f (e ip).inum (G (f (e ip).inum))) q → Q () t) :
    wp (modDi ip g) E (fun _ t => wp (iupdate ip) E Q t) s := by
  have hip := h.view.loaded hRef hValid
  have hsb := h.view.sb
  rw [← wp_bind (f := fun _ => Fs.iupdate ip)]
  refine wp_post (Quota.wp_within (n := 0) hE h.quota (Q := fun _ t =>
    Alters s t (e ip).inum (G (f (e ip).inum))) ?_ ?_) ?_
  · rw [wp_bind]
    apply setAttr_spec (fun _ he => he) h.view.consistent hip g hg
    intro t ht
    rw [hG, ← FsState.nodes_of_live (h.view.consistent.live hip)] at ht
    rw [← h.view.files]
    exact ht
  · rintro F r K rfl hBudget hLength hK
    rw [wp_bind]
    refine wp_post (setAttr_log hBudget ?_ ?_ g) ?_
    · rw [hsb, h.view.inum]
      exact hK _ hInum
    · exact lt_of_le_of_lt hLength hRoom
    · intro _ t ht
      exact wp_post ht fun _ u hu => ⟨[], le_refl 0, hu.budget⟩
  · rintro _ t ⟨hAlters, hQuota⟩
    apply hQ
    have hView := h.view.of_alters hAlters
    rw [Quota.use_zero] at hQuota
    exact ⟨hView, hQuota⟩

omit hE in
lemma iputFree_log {K : List Nat} (h : View s sb e f) (hRef : 0 < (e ip).ref) (hValid : (e ip).valid = true)
    (hBudget : Budget K s) (hMap : ∀ c < s.sb.size, s.sb.bblock c ∈ K) (hInum : s.sb.iblock (e ip).inum ∈ K)
    (hCap : K.length < logblocks) : wp (iputFree ip) LogFits (fun _ t => Budget K t) s := by
  have hip := h.loaded hRef hValid
  unfold iputFree releasesleep
  apply wp_call (itrunc_log h.consistent hip hBudget hMap hInum hCap)
  intro _ t ht
  have hInum' : t.sb.iblock (t.itable ip).inum ∈ K := by
    rw [ht.sb, ht.inum, hip.inum]
    exact hInum
  rw [wp_bind]
  apply wp_post (setAttr_log ht.budget hInum' hCap _)
  intro _ u hu
  rw [wp_bind]
  apply wp_post hu
  intro _ v hv
  rw [wp_bind, wp_modInode, wp_modInode]
  exact hv.budget.congr rfl rfl

lemma iput (h : Job s sb e f q) (hRef : 0 < (e ip).ref)
    (hUnlocked : (e ip).ref = 1 → (e ip).valid = true → (e ip).locked = false)
    (hFree : (e ip).ref = 1 → (e ip).valid = true → (f (e ip).inum).nlink = 0 →
      q.HasMap sb ∧ q.Has (sb.iblock (e ip).inum) ∧ q.Room 0) :
    wp (Fs.iput ip) E (fun _ t => ∃ e' f', Dropped e f ip e' f' ∧ Job t sb e' f' q) s := by
  rw [iput_eq]
  apply wp_call (iputCheck_spec h.view hRef hUnlocked)
  rintro r t ⟨hLog, ht⟩
  have hQuota := h.quota.congr hLog
  cases r with
  | false =>
    rw [if_neg Bool.false_ne_true] at ht
    exact wp_val ⟨_, _, .keep ht.1, ht.2, hQuota⟩
  | true =>
    obtain ⟨⟨hOne, hValid, hLink⟩, hView⟩ := ht
    obtain ⟨hMap, hInum, hRoom⟩ := hFree hOne hValid hLink
    have hAt : Function.update e ip { e ip with locked := true } ip = { e ip with locked := true } := Function.update_self ..
    have hRef' : 0 < (Function.update e ip { e ip with locked := true } ip).ref := by
      rw [hAt]
      exact hRef
    have hValid' : (Function.update e ip { e ip with locked := true } ip).valid = true := by
      rw [hAt]
      exact hValid
    rw [if_pos rfl]
    refine wp_call (Quota.wp_within (n := 0) hE hQuota (iputFree_spec (fun _ he => he) hView hRef' hValid') ?_) ?_
    · rintro F r K rfl hBudget hLength hK
      have hsb := hView.sb
      refine wp_post (iputFree_log hView hRef' hValid' hBudget (fun c hc => ?_) ?_ ?_) fun _ t ht => ⟨[], le_refl 0, ht⟩
      · rw [hsb] at hc ⊢
        exact hK _ (hMap c hc)
      · rw [hsb, hAt]
        exact hK _ hInum
      · exact lt_of_le_of_lt hLength hRoom
    · rintro _ u ⟨hu, hQuota'⟩
      rw [hAt, Function.update_idem] at hu
      apply wp_post (iputDrop_spec hu (show 0 < (Function.update e ip _ ip).ref by rw [Function.update_self]; exact hRef))
      rintro _ v ⟨hLog', hv⟩
      refine ⟨_, _, .free hOne hValid hLink, ?_, ?_⟩
      · grind [Function.update_idem, Function.update_apply]
      · rw [Quota.use_zero] at hQuota'
        exact hQuota'.congr hLog'

lemma writei (h : Job s sb e f q) (hRef : 0 < (e ip).ref) (hValid : (e ip).valid = true) (hMap : q.HasMap sb)
    (hInum : q.Has (sb.iblock (e ip).inum)) (hRoom : q.Room (2 * spanned off n)) (src : CopyIn) :
    wp (Fs.writei ip src off n) E (fun _ t => ∃ size data, Job t sb e
      (Function.update f (e ip).inum { f (e ip).inum with size := size, data := data }) (q.use (2 * spanned off n))) s := by
  have hip := h.view.loaded hRef hValid
  refine wp_post (Quota.wp_within (n := 2 * spanned off n) hE h.quota
    (writei_spec (fun _ he => he) h.view.consistent hip src off n) ?_) ?_
  · rintro F r K rfl hBudget hLength hK
    have hsb := h.view.sb
    refine wp_post (writei_log hBudget (fun c hc => ?_) ?_ ?_ src) fun _ t ⟨l, hl, ht⟩ => ⟨l, hl, ht.budget⟩
    · rw [hsb] at hc ⊢
      exact hK _ (hMap c hc)
    · rw [hsb, h.view.inum]
      exact hK _ hInum
    · exact lt_of_le_of_lt (Nat.add_le_add_right hLength _) hRoom
  · rintro _ t ⟨⟨size, data, -, hAlters⟩, hQuota⟩
    rw [h.view.files] at hAlters
    exact ⟨size, data, h.view.of_alters hAlters, hQuota⟩

lemma writeDirent (h : Job s sb e f q) (hRef : 0 < (e ip).ref) (hValid : (e ip).valid = true) (hMap : q.HasMap sb)
    (hInum : q.Has (sb.iblock (e ip).inum)) (hRoom : q.Room 2) {l : Text} (hl : l.length = 16) (hOff : off % 16 = 0) :
    wp (writeiKernel ip l off) E (fun r t =>
      (r ≠ 16 ∧ Job t sb e f (q.use 2)) ∨
      (r = 16 ∧ off ≤ (f (e ip).inum).size ∧ off + 16 ≤ 268 * 1024 ∧
        Job t sb e (Function.update f (e ip).inum
          { f (e ip).inum with size := max (f (e ip).inum).size (off + 16), data := overwrite (f (e ip).inum).data off l })
          (q.use 2))) s := by
  have hip := h.view.loaded hRef hValid
  have hSpan : spanned off l.length = 1 := by
    unfold spanned
    rw [hl, if_neg (by decide)]
    omega
  refine wp_post (Quota.wp_within (n := 2) hE h.quota
    (writeDirent_spec (fun _ he => he) h.view.consistent hip hl hOff) ?_) ?_
  · rintro F r K rfl hBudget hLength hK
    have hsb := h.view.sb
    unfold writeiKernel
    refine wp_post (writei_log hBudget (fun c hc => ?_) ?_ ?_ _) fun _ t ⟨l', hl', ht⟩ => ⟨l', by omega, ht.budget⟩
    · rw [hsb] at hc ⊢
      exact hK _ (hMap c hc)
    · rw [hsb, h.view.inum]
      exact hK _ hInum
    · rw [hSpan]
      exact lt_of_le_of_lt (Nat.add_le_add_right hLength _) hRoom
  · rintro r t ⟨hr, hQuota⟩
    rcases hr with ⟨hr, hAlters⟩ | ⟨hr, hLow, hMax, hAlters⟩
    · have hView := h.view.of_alters hAlters
      rw [h.view.files, Function.update_eq_self] at hView
      exact .inl ⟨hr, hView, hQuota⟩
    · have hView := h.view.of_alters hAlters
      rw [h.view.files] at hView hLow
      exact .inr ⟨hr, hLow, hMax, hView, hQuota⟩

lemma iallocAt (h : Job s sb e f q) (hi : 0 < i ∧ i < sb.ninodes) {type : UInt16} (hType : type ≠ 0) (hRoom : q.Room 1) :
    wp (Fs.iallocAt rootdev type i) E (fun r t =>
      match r with
      | none => t = s ∧ (f i).type ≠ 0
      | some ip => (f i).type = 0 ∧ ∃ e', Took e i ip e' ∧
          Job t sb e' (Function.update f i ⟨type, 0, 0, 0, 0, fun _ => 0⟩) (q.add (sb.iblock i))) s := by
  unfold Fs.iallocAt
  rw [wp_bind, wp_read, wp_ite]
  constructor
  · intro hZero
    have hFree := (h.view.type_eq_zero hi.2).mpr hZero
    have hClaim := claim_view h.view hi.2 hFree hType
    rw [wp_bind, wp_update, wp_bind]
    obtain ⟨v, hv⟩ : ∃ v, v = s.setDinode i { Dinode.zero with type := type } := ⟨_, rfl⟩
    have hvQuota : (q.add (sb.iblock i)).Holds v := by
      rw [hv]
      exact (h.quota.add _).congr ⟨rfl, rfl⟩
    have hBlock : s.sb.iblock i = sb.iblock i := by rw [h.view.sb]
    simp only [id, hBlock]
    rw [← hv] at hClaim ⊢
    refine wp_post (Quota.wp_within (n := 0) (hE.add _) hvQuota (Q := fun _ t => ∃ l, t = v.withLh l)
      (wp_logWrite (fun _ he => he) _ fun l => ⟨l, rfl⟩) ?_) ?_
    · rintro F r K hq hBudget hLength hK
      refine wp_post (logWrite_log hBudget (hK _ ?_) ?_) fun _ t ⟨l, _, ht⟩ => ⟨[], le_refl 0, ht⟩
      · have hHas := Quota.has_add_self (q := q) (b := sb.iblock i)
        rw [hq] at hHas
        exact hHas
      · have hAdd := Quota.Room.add hRoom (sb.iblock i)
        rw [hq] at hAdd
        exact lt_of_le_of_lt hLength hAdd
    · rintro _ t ⟨⟨l, rfl⟩, hQuota⟩
      rw [Quota.use_zero] at hQuota
      have hJob : Job (v.withLh l) sb e (Function.update f i ⟨type, 0, 0, 0, 0, fun _ => 0⟩) (q.add (sb.iblock i)) :=
        ⟨hClaim.withLh l, hQuota⟩
      apply wp_call (hJob.iget (hE.add _) hi)
      rintro ip u ⟨e', hTook, hu⟩
      exact wp_val ⟨hFree, e', hTook, hu⟩
  · intro hUsed
    exact wp_val ⟨rfl, fun hZero => hUsed ((h.view.type_eq_zero hi.2).mp hZero)⟩

lemma ialloc (h : Job s sb e f q) {type : UInt16} (hType : type ≠ 0) (hRoom : q.Room 1) :
    wp (Fs.ialloc rootdev type) E (fun r t =>
      match r with
      | none => t = s ∧ ∀ i, 0 < i → i < sb.ninodes → (f i).type ≠ 0
      | some ip => ∃ i, 0 < i ∧ i < sb.ninodes ∧ (f i).type = 0 ∧ ∃ e', Took e i ip e' ∧
          Job t sb e' (Function.update f i ⟨type, 0, 0, 0, 0, fun _ => 0⟩) (q.add (sb.iblock i))) s := by
  unfold Fs.ialloc
  rw [wp_bind, wp_read, h.view.sb]
  apply wp_firstM (I := fun l t => t = s ∧ (∀ i ∈ l, 0 < i ∧ i < sb.ninodes) ∧
    ∀ i, 0 < i → i < sb.ninodes → (f i).type ≠ 0 ∨ i ∈ l)
  · rintro t ⟨rfl, -, hTaken⟩
    exact ⟨rfl, fun i hi hLt => (hTaken i hi hLt).resolve_right (by simp)⟩
  · rintro i l t ⟨rfl, hAll, hTaken⟩
    have hi := hAll i List.mem_cons_self
    apply wp_post (h.iallocAt hE hi hType hRoom)
    intro r u hr
    cases r with
    | none =>
      grind
    | some ip => exact ⟨i, hi.1, hi.2, hr⟩
  · refine ⟨rfl, fun i hi => ?_, fun i hi hLt => .inr ?_⟩
    · grind
    · exact List.mem_map.mpr ⟨i - 1, List.mem_range.mpr (by omega), by omega⟩

end Job

end Xv6K230.Fs
