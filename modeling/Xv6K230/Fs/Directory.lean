import Xv6K230.Fs.Jobs
import Xv6K230.Fs.Names

/-! # Directories

Lookup, insertion and the test for emptiness on the entries of a directory file.
-/

namespace Xv6K230.Fs

open Prog
open Function (update_idem update_of_ne update_self)

variable {E : Stop → Prop} {s t u : FsState} {sb : Superblock} {e e' : Ip → Entry} {f : Nat → Node} {q : Quota}
  {ip jp dp : Ip} {i k off : Nat} {name : Text} {n : Node}

def Node.Slot (n : Node) (off : Nat) : Prop := off % 16 = 0 ∧ off + 16 ≤ n.size

def Node.Names (n : Node) (off : Nat) (name : Text) : Prop :=
  n.Slot off ∧ (n.dirent off).inum ≠ 0 ∧ namecmp name (n.dirent off).name = 0

def Node.InRange (n : Node) (ninodes : Nat) : Prop := ∀ off, n.Slot off → (n.dirent off).inum.toNat < ninodes

structure Node.Vacant (n : Node) (off : Nat) : Prop where
  aligned : off % 16 = 0
  low : off ≤ n.size
  high : off + 16 ≤ 268 * 1024
  unused : n.Slot off → (n.dirent off).inum = 0

lemma mem_direntOffsets {size : Nat} : off ∈ direntOffsets size ↔ off % 16 = 0 ∧ off < size := by
  unfold direntOffsets direntSize
  rw [List.mem_map]
  constructor
  · rintro ⟨k, hk, rfl⟩
    have hk' := List.mem_range.mp hk
    omega
  · rintro ⟨hMod, hLt⟩
    exact ⟨off / 16, List.mem_range.mpr (by omega), by omega⟩

lemma mem_direntOffsets_drop {size : Nat} : off ∈ (direntOffsets size).drop 2 ↔ off % 16 = 0 ∧ 32 ≤ off ∧ off < size := by
  unfold direntOffsets direntSize
  rw [← List.map_drop, List.mem_map]
  constructor
  · grind [List.mem_iff_getElem, List.length_drop, List.length_range]
  · rintro ⟨hMod, hLow, hLt⟩
    refine ⟨off / 16, ?_, by omega⟩
    rw [List.mem_iff_getElem]
    refine ⟨off / 16 - 2, ?_, ?_⟩
    · rw [List.length_drop, List.length_range]
      omega
    · rw [List.getElem_drop, List.getElem_range]
      omega

/-! ## Names and entries -/

/-- What `namecmp` sees of a name. -/
def key (name : Text) : Text := (name.take dirsiz).takeWhile (· ≠ 0)

lemma strncmp_eq_zero : ∀ (n : Nat) (p q : Text),
    strncmp p q n = 0 ↔ (p.take n).takeWhile (· ≠ 0) = (q.take n).takeWhile (· ≠ 0)
  | 0, _, _ => by simp [strncmp]
  | n + 1, p, q => by
    have ih := strncmp_eq_zero n p.tail q.tail
    have hCut : ∀ l : Text, (l.take (n + 1)).takeWhile (· ≠ 0) =
        if l.headD 0 = 0 then [] else l.headD 0 :: (l.tail.take n).takeWhile (· ≠ 0) := by
      intro l
      cases l with
      | nil => rfl
      | cons c l =>
        by_cases hc : c = 0
        · simp [hc]
        · simp [hc]
    rw [hCut p, hCut q]
    unfold strncmp
    obtain ⟨c, hc⟩ : ∃ c, c = p.headD 0 := ⟨_, rfl⟩
    obtain ⟨d, hd⟩ : ∃ d, d = q.headD 0 := ⟨_, rfl⟩
    rw [← hc, ← hd]
    by_cases hSame : c ≠ 0 ∧ c = d
    · rw [if_pos hSame, ih, if_neg hSame.1, if_neg (hSame.2 ▸ hSame.1), hSame.2, List.cons_inj_right]
    · grind [UInt8.toNat_inj]

lemma namecmp_eq_zero {s t : Text} : namecmp s t = 0 ↔ key s = key t := strncmp_eq_zero dirsiz s t

lemma key_padded (name : Text) : key ((name ++ List.replicate dirsiz 0).take dirsiz) = key name := by
  unfold key
  rw [List.take_take, Nat.min_self, List.take_append]
  induction name.take dirsiz with
  | nil =>
    rw [List.nil_append, List.take_replicate, List.takeWhile_replicate]
    rfl
  | cons c l ih =>
    rw [List.cons_append, List.takeWhile_cons, List.takeWhile_cons, ih]

def Node.put (n : Node) (off : Nat) (l : Text) : Node :=
  { n with size := max n.size (off + 16), data := overwrite n.data off l }

lemma Node.slot_put {l : Text} {o : Nat} (hOff : off % 16 = 0) (hLow : off ≤ n.size) :
    (n.put off l).Slot o ↔ n.Slot o ∨ o = off := by
  unfold Slot put
  simp only
  omega

lemma Node.dirent_put {l : Text} {o : Nat} (hl : l.length = 16) (hOff : off % 16 = 0) (ho : o % 16 = 0) :
    (n.put off l).dirent o = if o = off then Dirent.ofBytes l else n.dirent o := by
  unfold dirent put
  split
  · rename_i h
    subst h
    congr 1
    apply List.ext_getElem
    · simp [hl]
    · intro k hk hk'
      simp only [List.getElem_map, List.getElem_range, overwrite]
      rw [if_pos ⟨by omega, by omega⟩, Nat.add_sub_cancel_left, List.getD_eq_getElem _ _ hk']
  · grind [List.map_congr_left, overwrite]

lemma scan_spec {α : Type} {stop : Stop} {g : Dirent → Nat → FsM (Option α)} {R : Option α → FsState → Prop} {P : Dirent → Prop}
    (h : View s sb e f) (hRef : 0 < (e dp).ref) (hValid : (e dp).valid = true)
    (hStop : (f (e dp).inum).size % 16 ≠ 0 → E stop)
    (hSkip : ∀ off, (f (e dp).inum).Slot off → ¬ P ((f (e dp).inum).dirent off) →
      wp (g ((f (e dp).inum).dirent off) off) E (fun r t => r = none ∧ t = s) s)
    (hHit : ∀ off, (f (e dp).inum).Slot off → P ((f (e dp).inum).dirent off) →
      wp (g ((f (e dp).inum).dirent off) off) E (fun r t => (∃ a, r = some a) ∧ R r t) s)
    {l : List Nat} (hOffs : ∀ off ∈ l, off % 16 = 0 ∧ off < (f (e dp).inum).size)
    (hNone : (∀ off ∈ l, (f (e dp).inum).Slot off ∧ ¬ P ((f (e dp).inum).dirent off)) → R none s) :
    wp (firstM (fun off => do
      let de ← readDirent dp off stop
      g de off) l) E R s := by
  classical
  have hip := h.loaded hRef hValid
  have hFile : s.files (e dp).inum = f (e dp).inum := by rw [h.files]
  have hWhole : ∀ off, off % 16 = 0 → off < (f (e dp).inum).size → (s.files (e dp).inum).size < off + 16 → E stop := by
    intro off hMod hLt hShort
    rw [hFile] at hShort
    exact hStop (by omega)
  apply wp_firstM (I := fun rest t => t = s ∧ (∀ off ∈ rest, off ∈ l) ∧
    ∀ off ∈ l, off ∈ rest ∨ (f (e dp).inum).Slot off ∧ ¬ P ((f (e dp).inum).dirent off))
  · grind
  · rintro off rest t ⟨rfl, hSub, hAll⟩
    obtain ⟨hMod, hLt⟩ := hOffs off (hSub off List.mem_cons_self)
    apply wp_call (readDirent_spec h.consistent hip hMod stop (hWhole off hMod hLt))
    rintro de t ⟨rfl, hEnd, rfl⟩
    rw [hFile] at hEnd ⊢
    by_cases hP : P ((f (e dp).inum).dirent off)
    · apply wp_post (hHit off ⟨hMod, hEnd⟩ hP)
      rintro r t ⟨⟨a, rfl⟩, hR⟩
      exact hR
    · apply wp_post (hSkip off ⟨hMod, hEnd⟩ hP)
      rintro r u ⟨rfl, rfl⟩
      refine ⟨rfl, fun o ho => hSub o (List.mem_cons_of_mem _ ho), ?_⟩
      intro o ho
      rcases hAll o ho with hMem | hDone
      · rcases List.mem_cons.mp hMem with rfl | hRest
        · exact .inr ⟨⟨hMod, hEnd⟩, hP⟩
        · exact .inl hRest
      · exact .inr hDone
  · exact ⟨rfl, fun _ ho => ho, fun _ ho => .inl ho⟩

section

lemma dirlookup_spec (hE : ∀ e, Mild e → LogFits e → E e) (h : View s sb e f) (hRef : 0 < (e dp).ref) (hValid : (e dp).valid = true)
    (hRange : (f (e dp).inum).type = tDir → (f (e dp).inum).InRange sb.ninodes) (name : Text) :
    wp (Fs.dirlookup dp name) E (fun r t => (f (e dp).inum).type = tDir ∧
      match r with
      | none => t = s ∧ ∀ off, ¬ (f (e dp).inum).Names off name
      | some (ip, off) => (f (e dp).inum).Names off name ∧ SameLog s t ∧
          ∃ e', Took e ((f (e dp).inum).dirent off).inum.toNat ip e' ∧ View t sb e' f) s := by
  have hSize := h.size hRef hValid
  unfold Fs.dirlookup
  rw [wp_bind, wp_getInode, wp_ite]
  constructor
  · exact fun _ => (wp_stop _).mpr (hE _ (by simp [Mild]) (by simp [LogFits]))
  · intro hDir
    rw [not_not, h.type hRef hValid] at hDir
    have hRange := hRange hDir
    have hDev : (s.itable dp).dev = rootdev := by
      rw [h.dev]
      exact h.table.dev dp hRef
    rw [hDev, hSize]
    simp only [hDir, true_and]
    apply scan_spec (P := fun de => de.inum ≠ 0 ∧ namecmp name de.name = 0)
      (g := fun de off => do
        if de.inum = 0 then return none
        else if namecmp name de.name = 0 then
          let ip ← Fs.iget rootdev de.inum.toNat
          return some (ip, off)
        else return none) h hRef hValid (fun _ => hE _ (by simp [Mild]) (by simp [LogFits]))
    · intro off _ hP
      rw [wp_ite]
      constructor
      · exact fun _ => wp_val ⟨rfl, rfl⟩
      · intro hne
        rw [if_neg fun hName => hP ⟨hne, hName⟩, wp_pure]
        exact ⟨rfl, rfl⟩
    · rintro off hSlot ⟨hne, hName⟩
      have hPos : 0 < ((f (e dp).inum).dirent off).inum.toNat :=
        Nat.pos_of_ne_zero fun hz => hne (UInt16.toNat_inj.mp hz)
      rw [if_neg hne, if_pos hName]
      apply wp_call (iget_spec hE h ⟨hPos, hRange off hSlot⟩)
      rintro ip t hTook
      exact wp_val ⟨⟨_, rfl⟩, ⟨hSlot, hne, hName⟩, hTook⟩
    · exact fun off hOff => mem_direntOffsets.mp hOff
    · intro hAll
      refine ⟨rfl, ?_⟩
      rintro off ⟨⟨hMod, hEnd⟩, hne, hName⟩
      exact (hAll off (mem_direntOffsets.mpr ⟨hMod, by omega⟩)).2 ⟨hne, hName⟩

variable (hE : q.Tame E)

include hE

lemma Job.dirlookup (h : Job s sb e f q) (hRef : 0 < (e dp).ref) (hValid : (e dp).valid = true)
    (hRange : (f (e dp).inum).type = tDir → (f (e dp).inum).InRange sb.ninodes) (name : Text) :
    wp (Fs.dirlookup dp name) E (fun r t => (f (e dp).inum).type = tDir ∧
      match r with
      | none => t = s ∧ ∀ off, ¬ (f (e dp).inum).Names off name
      | some (ip, off) => (f (e dp).inum).Names off name ∧
          ∃ e', Took e ((f (e dp).inum).dirent off).inum.toNat ip e' ∧ Job t sb e' f q) s := by
  apply wp_post (dirlookup_spec hE.calm h.view hRef hValid hRange name)
  rintro (_ | ⟨ip, off⟩) t ⟨hDir, ht⟩
  · exact ⟨hDir, ht⟩
  · obtain ⟨hNamed, hLog, e', hTook, hView⟩ := ht
    exact ⟨hDir, hNamed, e', hTook, hView, h.quota.congr hLog⟩

def SameRefs (e e' : Ip → Entry) : Prop :=
  ∀ ip, (e' ip).ref = (e ip).ref ∧ (e' ip).locked = (e ip).locked ∧ (0 < (e ip).ref → e' ip = e ip)

omit hE in
lemma SameRefs.refl (e : Ip → Entry) : SameRefs e e := fun _ => ⟨rfl, rfl, fun _ => rfl⟩

lemma Job.iput_took (h : Job s sb e' f q) (hTable : TableOk sb.ninodes e) (hTook : Took e i ip e') :
    wp (Fs.iput ip) E (fun _ t => ∃ e'', SameRefs e e'' ∧ Job t sb e'' f q) s := by
  have hPos := hTook.pos hTable
  have hNot : (e' ip).ref = 1 → (e' ip).valid = true → False := by
    intro hOne hValid
    cases hTook with
    | again hRef =>
      rw [update_self] at hOne
      simp only at hOne
      omega
    | first =>
      rw [update_self] at hValid
      cases hValid
  apply wp_post (h.iput hE hPos (fun hOne hValid => (hNot hOne hValid).elim) fun hOne hValid => (hNot hOne hValid).elim)
  rintro _ t ⟨e'', f'', hDropped, hView⟩
  cases hTook with
  | again hRef hInum =>
    cases hDropped with
    | free hOne =>
      rw [update_self] at hOne
      simp only at hOne
      omega
    | keep =>
      refine ⟨_, ?_, hView⟩
      rw [update_idem, update_self]
      intro jp
      by_cases hj : jp = ip
      · subst hj
        rw [update_self]
        refine ⟨by simp only; omega, rfl, fun _ => ?_⟩
        simp only [Int.add_sub_cancel]
      · rw [update_of_ne hj]
        exact ⟨rfl, rfl, fun _ => rfl⟩
  | first hRef =>
    cases hDropped with
    | free _ hValid =>
      rw [update_self] at hValid
      cases hValid
    | keep =>
      refine ⟨_, ?_, hView⟩
      rw [update_idem, update_self]
      intro jp
      by_cases hj : jp = ip
      · grind
      · rw [update_of_ne hj]
        exact ⟨rfl, rfl, fun _ => rfl⟩

lemma Job.dirlink (h : Job s sb e f q) (hRef : 0 < (e dp).ref) (hValid : (e dp).valid = true)
    (hRange : (f (e dp).inum).type = tDir → (f (e dp).inum).InRange sb.ninodes) (hMap : q.HasMap sb) (hInum : q.Has (sb.iblock (e dp).inum))
    (hRoom : q.Room 2) (name : Text) (inum : Nat) :
    wp (Fs.dirlink dp name inum) E (fun r t => (f (e dp).inum).type = tDir ∧
      ((r = false ∧ ∃ e', SameRefs e e' ∧ Job t sb e' f (q.use 2)) ∨
      (r = true ∧ (∀ off, ¬ (f (e dp).inum).Names off name) ∧ ∃ off, (f (e dp).inum).Vacant off ∧
        Job t sb e (Function.update f (e dp).inum
          ((f (e dp).inum).put off (Dirent.mk (UInt16.ofNat inum) name).toBytes)) (q.use 2)))) s := by
  have hSize := h.view.size hRef hValid
  unfold Fs.dirlink
  apply wp_call (h.dirlookup hE hRef hValid hRange name)
  rintro (_ | ⟨ip, off⟩) t ⟨hDir, hr⟩
  · obtain ⟨ht, hAbsent⟩ := hr
    rw [ht, wp_bind, wp_getInode, hSize]
    apply wp_call (scan_spec (P := fun de => de.inum = 0)
      (g := fun de off => if de.inum = 0 then return some off else return none)
      (R := fun r t => t = s ∧ ∀ off, r = some off → off % 16 = 0 ∧ ((f (e dp).inum).dirent off).inum = 0)
      h.view hRef hValid (fun _ => hE.calm _ (by simp [Mild]) (by simp [LogFits])) _ _ (fun off hOff => mem_direntOffsets.mp hOff) _)
    · rintro slot u ⟨hu, hSlot⟩
      rw [hu]
      obtain ⟨off, hOff⟩ : ∃ off, off = slot.getD (((f (e dp).inum).size + (direntSize - 1)) / direntSize * direntSize) := ⟨_, rfl⟩
      have hOffFacts : off % 16 = 0 ∧ ((f (e dp).inum).Slot off → ((f (e dp).inum).dirent off).inum = 0) := by
        cases slot with
        | none =>
          rw [hOff]
          unfold direntSize
          refine ⟨by simp, fun hs => ?_⟩
          have hEnd := hs.2
          simp only [Option.getD_none] at hEnd
          omega
        | some o =>
          rw [hOff]
          exact ⟨(hSlot o rfl).1, fun _ => (hSlot o rfl).2⟩
      rw [← hOff]
      apply wp_call (h.writeDirent hE hRef hValid hMap hInum hRoom (Dirent.length_toBytes _) hOffFacts.1)
      rintro r v (⟨hr, hJob⟩ | ⟨rfl, hLow, hMax, hJob⟩)
      · exact wp_val ⟨hDir, .inl ⟨decide_eq_false hr, e, .refl e, hJob⟩⟩
      · exact wp_val ⟨hDir, .inr ⟨rfl, hAbsent, off, ⟨hOffFacts.1, hLow, hMax, hOffFacts.2⟩, hJob⟩⟩
    · intro off _ hP
      rw [if_neg hP, wp_pure]
      exact ⟨rfl, rfl⟩
    · intro off hSlot hP
      rw [if_pos hP, wp_pure]
      refine ⟨⟨_, rfl⟩, rfl, ?_⟩
      rintro o ho
      obtain rfl := Option.some.inj ho
      exact ⟨hSlot.1, hP⟩
    · exact fun _ => ⟨rfl, fun o ho => by cases ho⟩
  · obtain ⟨-, e', hTook, hJob⟩ := hr
    apply wp_call (hJob.iput_took hE h.table hTook)
    rintro _ u ⟨e'', hSame, hu⟩
    exact wp_val ⟨hDir, .inl ⟨rfl, e'', hSame, hu.use 2⟩⟩

lemma Job.isdirempty (h : Job s sb e f q) (hRef : 0 < (e dp).ref) (hValid : (e dp).valid = true) :
    wp (Fs.isdirempty dp) E (fun r t => t = s ∧
      (r = true → ∀ off, 32 ≤ off → (f (e dp).inum).Slot off → ((f (e dp).inum).dirent off).inum = 0)) s := by
  have hSize := h.view.size hRef hValid
  unfold Fs.isdirempty
  rw [wp_bind, wp_getInode, hSize]
  apply wp_call (scan_spec (P := fun de => de.inum ≠ 0)
    (g := fun de _ => if de.inum ≠ 0 then return some () else return none)
    (R := fun r t => t = s ∧ (r = none → ∀ off, 32 ≤ off → (f (e dp).inum).Slot off → ((f (e dp).inum).dirent off).inum = 0))
    h.view hRef hValid (fun _ => hE.calm _ (by simp [Mild]) (by simp [LogFits])) _ _ (l := (direntOffsets (f (e dp).inum).size).drop 2) _ _)
  · rintro r t ⟨rfl, hr⟩
    apply wp_val
    exact ⟨rfl, fun hNone => hr (Option.isNone_iff_eq_none.mp hNone)⟩
  · intro off _ hP
    rw [if_neg hP, wp_pure]
    exact ⟨rfl, rfl⟩
  · intro off _ hP
    rw [if_pos hP, wp_pure]
    exact ⟨⟨_, rfl⟩, rfl, fun hNone => by cases hNone⟩
  · grind [mem_direntOffsets_drop]
  · intro hAll
    refine ⟨rfl, fun _ off hLow hSlot => ?_⟩
    have hMem := mem_direntOffsets_drop.mpr ⟨hSlot.1, hLow, Nat.lt_of_lt_of_le (Nat.lt_add_of_pos_right (by decide)) hSlot.2⟩
    exact not_not.mp (hAll off hMem).2

end

end Xv6K230.Fs
