import Xv6K230.Fs.Content

/-! # Truncation

`itrunc` frees the blocks of a file one after the other.
-/

namespace Xv6K230.Fs

open List (mem_cons_of_mem mem_cons_self mem_range)
open FsState (place_none_iff place_slot place_some_iff)
open Prog
open Function (update_apply update_eq_self_iff update_of_ne update_self)

variable {E : Stop → Prop} {s t u : FsState} {m : Nat → Dinode} {ip : Ip} {i k a b : Nat} {d : Dinode}
  {loc : Option (Nat × Nat) → Option Nat} {p : Option (Nat × Nat)}

lemma Released.placement (hr : Released s t b) (hsb : t.sb = s.sb) (h : Placement loc s.Used) (hp : loc p = some b) :
    Placement (Function.update loc p none) t.Used := by
  apply h.drop hp
  intro c
  unfold FsState.Used
  rw [hsb]
  constructor
  · grind [hr.bits]
  · grind [hr.bits]

/-- `t` is `s` with some blocks freed: the bitmap fits `loc`, and the copy in entry `ip` is `d`. -/
structure Freeing (s : FsState) (ip : Ip) (t : FsState) (d : Dinode) (loc : Option (Nat × Nat) → Option Nat) : Prop where
  sb : t.sb = s.sb
  itable : t.itable = (s.setDi ip d).itable
  rest : ∀ c, c < s.sb.bmapstart ∨ s.sb.nmeta ≤ c → t.disk c = s.disk c
  placed : Placement loc t.Used
  low : ∀ c < s.sb.nmeta, t.bit c = true

namespace Freeing

lemma withDi (h : Freeing s ip t d loc) (d' : Dinode) : Freeing s ip (t.setDi ip d') d' loc where
  sb := h.sb
  itable := by
    rw [← FsState.setDi_setDi (s := s) (d := d)]
    unfold FsState.setDi FsState.setInode
    rw [h.itable]
    rfl
  rest := h.rest
  placed := h.placed
  low := h.low

lemma di (h : Freeing s ip t d loc) : (t.itable ip).di = d := by rw [h.itable, FsState.setDi_itable_same]

lemma congr {loc' : Option (Nat × Nat) → Option Nat} (h : Freeing s ip t d loc) (he : loc' = loc) : Freeing s ip t d loc' := by
  rwa [he]

end Freeing

section

variable (hE : ∀ e, Mild e → E e) (hOk : s.sb.Ok)

include hE hOk

lemma bfree_freeing (h : Freeing s ip t d loc) (hp : loc p = some b) :
    wp (bfree b) E (fun _ u => Freeing s ip u d (Function.update loc p none)) t := by
  have hUsed := h.placed.used_of hp
  apply wp_post (bfree_spec hE hUsed.2.2 hUsed.2.1)
  rintro _ u ⟨⟨hsb, hTable⟩, hr⟩
  refine ⟨hsb.trans h.sb, hTable.trans h.itable, ?_, hr.placement hsb h.placed hp, ?_⟩
  · intro c hc
    rw [hr.rest c (by rwa [h.sb]), h.rest c hc]
  · intro c hc
    have hFits := hOk.fits
    have hLow := hUsed.1
    rw [h.sb] at hLow
    rw [hr.bits c (by rw [h.sb]; omega), h.low c hc, decide_eq_false (by omega)]
    rfl

/-- The account after the direct blocks outside `ks` have been freed. -/
def withoutDirect (i : Nat) (ks : List Nat) (loc : Option (Nat × Nat) → Option Nat) : Option (Nat × Nat) → Option Nat
  | some (j, q) => if j = i ∧ q < 12 ∧ q ∉ ks then none else loc (some (j, q))
  | none => loc none

/-- The account after the entries of the indirect block outside `js` have been freed. -/
def withoutEntries (i : Nat) (js : List Nat) (loc : Option (Nat × Nat) → Option Nat) : Option (Nat × Nat) → Option Nat
  | some (j, q) => if j = i ∧ 13 ≤ q ∧ q < 269 ∧ q - 13 ∉ js then none else loc (some (j, q))
  | none => loc none

omit hE hOk in
lemma withoutDirect_mem {ks : List Nat} (hk : k ∈ ks) : withoutDirect i ks loc (some (i, k)) = loc (some (i, k)) :=
  if_neg fun hc => hc.2.2 hk

omit hE hOk in
lemma update_withoutDirect {ks : List Nat} (hk : k < 12) (hNot : k ∉ ks) :
    Function.update (withoutDirect i (k :: ks) loc) (some (i, k)) none = withoutDirect i ks loc := by
  funext p
  rcases p with _ | ⟨j, q⟩
  · rfl
  · grind [update_apply, mem_cons_of_mem, withoutDirect]

omit hE hOk in
lemma update_withoutEntries {js : List Nat} {j : Nat} (hj : j < 256) (hNot : j ∉ js) :
    Function.update (withoutEntries i (j :: js) loc) (some (i, 13 + j)) none = withoutEntries i js loc := by
  funext p
  rcases p with _ | ⟨l, q⟩
  · rfl
  · grind [update_apply, Nat.add_sub_cancel_left, mem_cons_of_mem, withoutEntries, Prod.mk.injEq]

lemma truncDirect_loop (hi : s.Live m i) (hStart : Freeing s ip s (m i) (s.place m none)) :
    wp (eachM (truncDirect ip) (List.range 12)) E (fun _ t => ∃ d, Freeing s ip t d (withoutDirect i [] (s.place m none)) ∧
      d = { m i with addrs := d.addrs } ∧ d.addr 12 = (m i).addr 12 ∧ ∀ k < 12, d.addr k = 0) s := by
  apply wp_post (wp_eachM (I := fun ks t => ks.Nodup ∧ (∀ k ∈ ks, k < 12) ∧
    ∃ d, Freeing s ip t d (withoutDirect i ks (s.place m none)) ∧
      d = { m i with addrs := d.addrs } ∧ d.addr 12 = (m i).addr 12 ∧
      (∀ k ∈ ks, d.addr k = (m i).addr k) ∧ ∀ k < 12, k ∉ ks → d.addr k = 0) _ _ s _)
  · rintro _ t ⟨-, -, d, hf, hAttr, hInd, -, hZero⟩
    exact ⟨d, hf, hAttr, hInd, fun k hk => hZero k hk (by simp)⟩
  · rintro k ks t ⟨hNodup, hRange, d, hf, hAttr, hInd, hSame, hZero⟩
    obtain ⟨hNot, hNodup'⟩ := List.nodup_cons.mp hNodup
    have hk := hRange k mem_cons_self
    have hAddr := hSame k mem_cons_self
    unfold truncDirect
    rw [wp_bind, wp_getInode, hf.di, wp_ite]
    have hSlot : slotAt s.disk (m i) k = d.addr k := by rw [slotAt, if_pos (by omega), hAddr]
    constructor
    · intro hne
      have hp : withoutDirect i (k :: ks) (s.place m none) (some (i, k)) = some (d.addr k) := by
        grind [withoutDirect_mem, mem_cons_self, place_some_iff, nslots]
      apply wp_call (bfree_freeing hE hOk hf hp)
      intro _ u hu
      rw [update_withoutDirect hk hNot] at hu
      rw [wp_modDi, hu.di]
      have hSet := Dinode.addr_setAddr d (show k < 13 by omega) (show 0 < 2 ^ 32 by decide)
      refine ⟨hNodup', fun l hl => hRange l (mem_cons_of_mem _ hl), _, hu.withDi _, ?_, ?_, ?_, ?_⟩
      · rw [hAttr]
        rfl
      · rw [hSet, if_neg (by omega), hInd]
      · intro l hl
        rw [hSet, if_neg (ne_of_mem_of_not_mem hl hNot), hSame l (mem_cons_of_mem _ hl)]
      · grind
    · intro hZeroK
      have hEq : d.addr k = 0 := not_not.mp hZeroK
      apply wp_val
      refine ⟨hNodup', fun l hl => hRange l (mem_cons_of_mem _ hl), d, hf.congr ?_, hAttr, hInd,
        fun l hl => hSame l (mem_cons_of_mem _ hl), ?_⟩
      · rw [← update_withoutDirect hk hNot, update_eq_self_iff]
        rw [withoutDirect_mem mem_cons_self, eq_comm, place_none_iff]
        exact fun _ _ => hSlot.trans hEq
      · grind
  · refine ⟨List.nodup_range, fun k hk => mem_range.mp hk, m i, hStart.congr ?_, rfl, rfl, fun _ _ => rfl, ?_⟩
    · funext p
      rcases p with _ | ⟨j, q⟩
      · rfl
      · exact if_neg fun hc => hc.2.2 (mem_range.mpr hc.2.1)
    · exact fun k hk hn => absurd (mem_range.mpr hk) hn

lemma truncEntry_loop {ind : Nat} (hf : Freeing s ip t d loc) (hMeta : s.sb.nmeta ≤ ind)
    (hLoc : ∀ j < 256, loc (some (i, 13 + j)) = if (s.disk ind).getLE (4 * j) 4 ≠ 0 then some ((s.disk ind).getLE (4 * j) 4) else none) :
    wp (eachM (truncEntry ind) (List.range 256)) E (fun _ u => Freeing s ip u d (withoutEntries i [] loc)) t := by
  apply wp_post (wp_eachM (I := fun js u => js.Nodup ∧ (∀ j ∈ js, j < 256) ∧ Freeing s ip u d (withoutEntries i js loc)) _ _ t _)
  · exact fun _ u hu => hu.2.2
  · rintro j js u ⟨hNodup, hRange, hu⟩
    obtain ⟨hNot, hNodup'⟩ := List.nodup_cons.mp hNodup
    have hj := hRange j mem_cons_self
    have hAt : withoutEntries i (j :: js) loc (some (i, 13 + j)) = loc (some (i, 13 + j)) := by
      grind [Nat.add_sub_cancel_left, mem_cons_self, withoutEntries]
    rw [hLoc j hj] at hAt
    unfold truncEntry
    rw [wp_bind, bread, wp_read, hu.rest ind (.inr hMeta), wp_ite]
    constructor
    · intro hne
      rw [if_pos hne] at hAt
      apply wp_post (bfree_freeing hE hOk hu hAt)
      intro _ v hv
      rw [update_withoutEntries hj hNot] at hv
      exact ⟨hNodup', fun l hl => hRange l (mem_cons_of_mem _ hl), hv⟩
    · intro hZero
      rw [if_neg hZero] at hAt
      apply wp_val
      refine ⟨hNodup', fun l hl => hRange l (mem_cons_of_mem _ hl), hu.congr ?_⟩
      rw [← update_withoutEntries hj hNot, update_eq_self_iff, hAt]
  · refine ⟨List.nodup_range, fun j hj => mem_range.mp hj, hf.congr ?_⟩
    funext p
    rcases p with _ | ⟨l, q⟩
    · rfl
    · apply if_neg
      rintro ⟨-, hLow, hHigh, hn⟩
      exact hn (mem_range.mpr (by omega))

/-- The account without the blocks of file `i`. -/
def withoutFile (i : Nat) (loc : Option (Nat × Nat) → Option Nat) : Option (Nat × Nat) → Option Nat
  | some (j, q) => if j = i then none else loc (some (j, q))
  | none => loc none

omit hE hOk in
lemma slotAt_cleared {disk : Nat → Block} (h : ∀ k < 13, d.addr k = 0) (q : Nat) : slotAt disk d q = 0 := by
  unfold slotAt
  split
  · exact h q ‹_›
  · exact if_pos (h 12 (by decide))

omit hE hOk in
lemma slotAt_indirect {disk : Nat → Block} {j : Nat} (h : d.addr 12 ≠ 0) :
    slotAt disk d (13 + j) = (disk (d.addr 12)).getLE (4 * j) 4 := by
  rw [slotAt, if_neg (by omega), if_neg h, Nat.add_sub_cancel_left]

lemma itrunc_blocks (h : Intact m s) (hip : Loaded s ip i) {Q : Unit → FsState → Prop}
    (hQ : ∀ t d, Freeing s ip t d (withoutFile i (s.place m none)) → d = { m i with addrs := d.addrs } →
      (∀ k < 13, d.addr k = 0) → wp (modDi ip fun d => { d with size := 0 }) E (fun _ u => wp (iupdate ip) E Q u) t) :
    wp (itrunc ip) E Q s := by
  have hLive := h.live hip
  have hStart : Freeing s ip s (m i) (s.place m none) :=
    ⟨rfl, by rw [FsState.setDi_self (h.di hip)], fun _ _ => rfl, h.owned.placed, h.low⟩
  unfold itrunc
  apply wp_call (truncDirect_loop hE hOk hLive hStart)
  rintro _ t ⟨d, hf, hAttr, hInd, hZero⟩
  rw [wp_bind, wp_getInode, hf.di]
  change wp (if d.addr 12 ≠ 0 then _ else _) _ _ _
  by_cases hne : d.addr 12 = 0
  · rw [if_neg (not_not.mpr hne)]
    have hClear : ∀ k < 13, d.addr k = 0 := by
      grind
    apply (wp_bind _ _).mpr
    apply hQ t d (hf.congr _) hAttr hClear
    funext p
    rcases p with _ | ⟨j, q⟩
    · rfl
    · unfold withoutFile withoutDirect
      by_cases hj : j = i
      · subst hj
        by_cases hq : q < 12
        · simp [hq]
        · have hNone : s.place m none (some (j, q)) = none := by
            rw [place_none_iff]
            intro _ _
            rw [slotAt, ← hInd, hne]
            split
            · rw [show q = 12 by omega, ← hInd, hne]
            · exact if_pos rfl
          simp [hq, hNone]
      · simp [hj]
  · rw [if_pos hne]
    have hInd' : (m i).addr 12 ≠ 0 := by rwa [← hInd]
    have hPlace : s.place m none (some (i, 12)) = some (d.addr 12) := by
      rw [place_some_iff]
      exact ⟨hLive, by decide, hInd.symm, hne⟩
    have hMeta := (h.used hPlace).1
    simp only [wp_bind]
    apply wp_post (truncEntry_loop (i := i) hE hOk hf hMeta _)
    · intro _ u hu
      have hAt : withoutEntries i [] (withoutDirect i [] (s.place m none)) (some (i, 12)) = some (d.addr 12) := by
        rw [← hPlace]
        exact (if_neg (by omega)).trans (if_neg (by omega))
      apply wp_post (bfree_freeing hE hOk hu hAt)
      intro _ v hv
      rw [wp_modDi, hv.di]
      have hSet := Dinode.addr_setAddr d (show ndirect < 13 by decide) (show 0 < 2 ^ 32 by decide)
      apply hQ _ _ ((hv.withDi _).congr _)
      · rw [hAttr]
        rfl
      · grind [ndirect]
      · funext p
        rcases p with _ | ⟨j, q⟩
        · rfl
        · by_cases hp : (j, q) = (i, 12)
          · obtain ⟨rfl, rfl⟩ := Prod.mk.inj hp
            rw [update_self]
            exact if_pos rfl
          · rw [update_of_ne (by simpa using hp)]
            unfold withoutFile withoutEntries withoutDirect
            by_cases hj : j = i
            · subst hj
              have hq : q ≠ 12 := fun he => hp (by rw [he])
              by_cases hLow : q < 12
              · simp [hLow]
              · by_cases hHigh : q < 269
                · have hq' : 13 ≤ q := by omega
                  simp [hq', hHigh]
                · grind [place_none_iff, nslots]
            · simp [hj]
    · intro j hj
      have hSkip : withoutDirect i [] (s.place m none) (some (i, 13 + j)) = s.place m none (some (i, 13 + j)) :=
        if_neg (by omega)
      rw [hSkip, place_slot, slotAt_indirect hInd', ← hInd]
      have hRange : 13 + j < nslots := by
        unfold nslots
        omega
      simp only [hLive, hRange, true_and]

end

lemma Freeing.intact (h : Intact m s) (hip : Loaded s ip i) (hf : Freeing s ip t d (withoutFile i (s.place m none)))
    (hClear : ∀ k < 13, d.addr k = 0) (hSize : d.size = 0) (hType : d.type ≠ 0) :
    Intact (Function.update m i d) t ∧
    t.nodes (Function.update m i d) = Function.update (s.nodes m) i ⟨d.type, d.major, d.minor, d.nlink, 0, fun _ => 0⟩ := by
  have hLive := h.live hip
  have hLives : ∀ j, t.Live (Function.update m i d) j ↔ s.Live m j := by
    grind [hf.sb, update_apply, FsState.Live]
  have hBlocks : ∀ p b, s.place m none (some p) = some b → t.disk b = s.disk b := by
    rintro ⟨j, q⟩ b hp
    exact hf.rest b (.inr (h.used hp).1)
  have hSlots : ∀ j q, j ≠ i → s.Live m j → slotAt t.disk (m j) q = slotAt s.disk (m j) q := by
    intro j q _ hj
    apply slotAt_congr
    intro hne
    exact hBlocks (j, 12) _ (place_some_iff.mpr ⟨hj, by decide, rfl, hne⟩)
  have hEntries : t.entries = s.entries := by
    unfold FsState.entries
    rw [hf.itable]
    exact FsState.setDi_entries
  have hPlace : t.place (Function.update m i d) none = withoutFile i (s.place m none) := by
    funext p
    rcases p with _ | ⟨j, q⟩
    · rfl
    · rw [place_slot]
      simp only [hLives, withoutFile]
      by_cases hj : j = i
      · subst hj
        rw [if_pos rfl, update_self, slotAt_cleared hClear]
        simp
      · grind [update_apply, place_slot]
  refine ⟨⟨?_, ⟨?_, ?_⟩, ?_, ?_, ?_⟩, ?_⟩
  · rw [hf.sb]
    exact h.ok
  · rw [hPlace]
    exact hf.placed
  · rw [hf.sb]
    exact hf.low
  · intro j hj
    by_cases hji : j = i
    · subst hji
      rw [update_self, hSize]
      exact ⟨Nat.zero_le _, fun bn hbn => absurd hbn (Nat.not_lt_zero _)⟩
    · have hl := (hLives j).mp hj
      rw [update_of_ne hji]
      obtain ⟨hMax, hFull⟩ := h.full j hl
      exact ⟨hMax, fun bn hbn => by rw [hSlots j _ hji hl]; exact hFull bn hbn⟩
  · rw [hf.sb, hEntries]
    exact h.table
  · intro jp hRef hValid
    have hc := h.cached.setDi h.table hip hLive.1 hType jp
    rw [hf.itable] at hRef hValid ⊢
    obtain ⟨hDi, hl⟩ := hc hRef hValid
    exact ⟨hDi, hl.congr hf.sb rfl⟩
  · funext j
    unfold FsState.nodes
    simp only [hLives]
    by_cases hj : j = i
    · subst hj
      rw [if_pos hLive, update_self, update_self]
      unfold Dinode.node
      rw [hSize]
      congr 1
      funext off
      unfold dataAt
      rw [slotAt_cleared hClear]
      simp
    · grind [update_apply, FsState.node_congr]

lemma itrunc_spec (hE : ∀ e, Mild e → E e) (h : Consistent s) (hip : Loaded s ip i) :
    wp (itrunc ip) E (fun _ t => Alters s t i { s.files i with size := 0, data := fun _ => 0 } ∧
      ∀ k < 13, (t.inode i).addr k = 0) s := by
  have hLive := h.live hip
  have hFile : s.files i = (s.inode i).node s.disk := FsState.nodes_of_live hLive
  apply itrunc_blocks hE h.ok h hip
  intro t d hf hAttr hClear
  rw [wp_modDi, hf.di]
  have hType : d.type ≠ 0 := by
    rw [hAttr]
    exact hLive.2
  obtain ⟨hIntact, hNodes⟩ := Freeing.intact h hip (hf.withDi { d with size := 0 }) hClear rfl hType
  have hEntries : (t.setDi ip { d with size := 0 }).entries = s.entries := by
    unfold FsState.entries
    rw [(hf.withDi _).itable]
    exact FsState.setDi_entries
  apply wp_post (iupdate_spec hE hIntact (hip.of_entries hEntries))
  rintro _ u ⟨hsb, hEntries', hInode, hIntact', hNodes'⟩
  have hMap : u.inode = Function.update s.inode i { d with size := 0 } := by
    rw [hInode, update_self]
    congr 1
    apply FsState.inode_congr h.ok
    · exact hf.sb
    · exact fun c hc => hf.rest c (.inl hc)
  refine ⟨⟨?_, hsb.trans hf.sb, hEntries'.trans hEntries, ?_⟩, ?_⟩
  · unfold Consistent
    rw [hMap]
    exact hIntact'
  · unfold FsState.files at hFile ⊢
    rw [hMap, hNodes', hNodes, hFile]
    congr 1
    unfold Dinode.node
    rw [hAttr]
  · rw [hMap, update_self]
    exact hClear

end Xv6K230.Fs
