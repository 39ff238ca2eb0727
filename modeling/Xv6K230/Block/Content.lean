import Xv6K230.Block.Counts

/-! # What the buffer cache holds

A block has one buffer at most, and a buffer or else the disk holds what has last been stored in a block.
-/

namespace Xv6K230.Blk

open Fs (Block rootdev)

structure Page where
  valid : Bool
  dev : Nat
  blockno : Nat
  data : Block

def Buf.page (v : Buf) : Page := ⟨v.valid, v.dev, v.blockno, v.data⟩

structure Content (page : Bi → Page) (disk stored : Nat → Block) (refs : List Ref) (logPins : List Nat) : Prop where
  unique : ∀ i j, (page i).dev = rootdev → (page j).dev = rootdev → (page i).blockno = (page j).blockno → i = j
  small : ∀ i, (page i).dev = rootdev → (page i).blockno < 2 ^ 22
  root : ∀ r ∈ refs, (page r.buf).dev = rootdev
  named : ∀ r ∈ refs, (page r.buf).blockno = r.blockno
  valid : ∀ r ∈ refs, r.stage.usable = true → (page r.buf).valid = true
  data : ∀ i, (page i).dev = rootdev → (page i).valid = true → (page i).data = stored (page i).blockno
  pinned : ∀ n ∈ logPins, ∃ i, (page i).dev = rootdev ∧ (page i).blockno = n ∧ (page i).valid = true
  written : ∀ r ∈ refs, r.stage = .ready .written → disk (page r.buf).blockno = stored (page r.buf).blockno
  clean : ∀ n, disk n = stored n ∨ n ∈ logPins ∨ ∃ r ∈ refs, r.stage = .ready .modified ∧ (page r.buf).blockno = n

section

variable {page : Bi → Page} {disk stored : Nat → Block} {refs : List Ref} {logPins : List Nat} {r : Ref}

lemma Content.move (h : Content page disk stored refs logPins) (hr : r ∈ refs) {u : Stage}
    (hValid : u.usable = true → (page r.buf).valid = true)
    (hWritten : u = .ready .written → disk (page r.buf).blockno = stored (page r.buf).blockno)
    (hModified : r.stage = .ready .modified → u = .ready .modified ∨
      disk (page r.buf).blockno = stored (page r.buf).blockno ∨ (page r.buf).blockno ∈ logPins) :
    Content page disk stored ({ r with stage := u } :: refs.erase r) logPins := by
  refine ⟨h.unique, h.small, ?_, ?_, ?_, h.data, h.pinned, ?_, ?_⟩
  · grind [h.root]
  · grind [h.named]
  · grind [h.valid]
  · grind [h.written]
  · grind [h.clean, List.mem_cons_self, mem_move_of_ne]

lemma Content.drop (h : Content page disk stored refs logPins) (hLeave : r.stage = .leaving) :
    Content page disk stored (refs.erase r) logPins := by
  refine ⟨h.unique, h.small, fun x hx => h.root x (List.mem_of_mem_erase hx),
    fun x hx => h.named x (List.mem_of_mem_erase hx), fun x hx => h.valid x (List.mem_of_mem_erase hx), h.data, h.pinned,
    fun x hx => h.written x (List.mem_of_mem_erase hx), fun n => ?_⟩
  rcases h.clean n with hDisk | hPin | ⟨x, hx, hStage, hn⟩
  · exact .inl hDisk
  · exact .inr (.inl hPin)
  · grind

lemma Content.add (h : Content page disk stored refs logPins) {pid n : Nat} {b : Bi} (hb : (page b).dev = rootdev)
    (hn : (page b).blockno = n) : Content page disk stored (⟨pid, n, b, .waiting⟩ :: refs) logPins := by
  refine ⟨h.unique, h.small, ?_, ?_, ?_, h.data, h.pinned, ?_, ?_⟩
  · grind [h.root]
  · grind [h.named]
  · intro x hx hUsable
    rcases List.mem_cons.mp hx with rfl | hx
    · cases hUsable
    · exact h.valid x hx hUsable
  · grind [h.written]
  · grind [h.clean]

lemma Content.on_disk (h : Content page disk stored refs logPins) {b : Bi} (hDev : (page b).dev = rootdev)
    (hInvalid : (page b).valid = false) : disk (page b).blockno = stored (page b).blockno := by
  rcases h.clean (page b).blockno with hDisk | hPin | ⟨x, hx, hStage, hn⟩
  · exact hDisk
  · grind [h.pinned, h.unique]
  · have hValid := h.valid x hx (by rw [hStage]; rfl)
    rw [h.unique x.buf b (h.root x hx) hDev hn, hInvalid] at hValid
    cases hValid

lemma Content.fill (h : Content page disk stored refs logPins) {b : Bi} {q : Bi → Page}
    (hDev : (page b).dev = rootdev) (hInvalid : (page b).valid = false)
    (hb : q b = { page b with valid := true, data := disk (page b).blockno })
    (hOther : ∀ i, i ≠ b → q i = page i) : Content q disk stored refs logPins := by
  have hName : ∀ i, (q i).dev = (page i).dev ∧ (q i).blockno = (page i).blockno := by
    grind
  have hValid : ∀ i, (page i).valid = true → (q i).valid = true := by
    intro i hi
    by_cases hib : i = b
    · rw [hib, hb]
    · rw [hOther i hib]
      exact hi
  constructor
  · grind [h.unique]
  · intro i hi
    rw [(hName i).2]
    exact h.small i ((hName i).1 ▸ hi)
  · intro x hx
    rw [(hName _).1]
    exact h.root x hx
  · intro x hx
    rw [(hName _).2]
    exact h.named x hx
  · exact fun x hx hUsable => hValid _ (h.valid x hx hUsable)
  · grind [h.on_disk, h.data]
  · grind [h.pinned]
  · intro x hx hStage
    rw [(hName _).2]
    exact h.written x hx hStage
  · grind [h.clean]

lemma Content.store (h : Content page disk stored refs logPins) (hr : r ∈ refs) (hUsable : r.stage.usable = true)
    (hAlone : ∀ x ∈ refs.erase r, x.buf = r.buf → x.stage.holds = false) (d : Block) {q : Bi → Page}
    (hb : q r.buf = { page r.buf with data := d }) (hOther : ∀ i, i ≠ r.buf → q i = page i) :
    Content q disk (fun n => if n = (page r.buf).blockno then d else stored n)
      ({ r with stage := .ready .modified } :: refs.erase r) logPins := by
  have hRoot := h.root r hr
  have hName : ∀ i, (q i).dev = (page i).dev ∧ (q i).blockno = (page i).blockno ∧
      (q i).valid = (page i).valid := by
    intro i
    by_cases hi : i = r.buf
    · rw [hi, hb]
      exact ⟨rfl, rfl, rfl⟩
    · rw [hOther i hi]
      exact ⟨rfl, rfl, rfl⟩
  constructor
  · grind [h.unique]
  · intro i hi
    rw [(hName i).2.1]
    exact h.small i ((hName i).1 ▸ hi)
  · grind [h.root]
  · grind [h.named]
  · grind [h.valid]
  · intro i hi hiValid
    by_cases hib : i = r.buf
    · subst hib
      rw [hb, if_pos rfl]
    · rw [hOther i hib] at hi hiValid ⊢
      rw [if_neg fun hn => hib (h.unique i r.buf hi hRoot hn)]
      exact h.data i hi hiValid
  · grind [h.pinned]
  · intro x hx hStage
    rcases List.mem_cons.mp hx with rfl | hx
    · cases hStage
    · rw [(hName _).2.1, if_neg]
      · exact h.written x (List.mem_of_mem_erase hx) hStage
      · intro hn
        have hBuf := h.unique x.buf r.buf (h.root x (List.mem_of_mem_erase hx)) hRoot hn
        have hHolds := hAlone x hx hBuf
        rw [hStage] at hHolds
        cases hHolds
  · intro n
    by_cases hn : n = (page r.buf).blockno
    · exact .inr (.inr ⟨_, List.mem_cons_self, rfl, (hName _).2.1.trans hn.symm⟩)
    · grind [h.clean]

lemma Content.write (h : Content page disk stored refs logPins) (hr : r ∈ refs) (hUsable : r.stage.usable = true) :
    Content page (fun n => if n = (page r.buf).blockno then (page r.buf).data else disk n) stored
      ({ r with stage := .ready .written } :: refs.erase r) logPins := by
  have hData := h.data r.buf (h.root r hr) (h.valid r hr hUsable)
  refine ⟨h.unique, h.small, ?_, ?_, ?_, h.data, h.pinned, ?_, ?_⟩
  · grind [h.root]
  · grind [h.named]
  · grind [h.valid]
  · grind [h.written]
  · grind [h.clean]

lemma Content.recycle (h : Content page disk stored refs logPins) {b : Bi} {n : Nat} {q : Bi → Page}
    (hFree : ∀ x ∈ refs, x.buf ≠ b) (hPin : ¬ ((page b).dev = rootdev ∧ (page b).blockno ∈ logPins))
    (hNew : ∀ c, ¬ ((page c).dev = rootdev ∧ (page c).blockno = n)) (hn : n < 2 ^ 22)
    (hb : (q b).valid = false ∧ (q b).dev = rootdev ∧ (q b).blockno = n)
    (hOther : ∀ i, i ≠ b → q i = page i) : Content q disk stored refs logPins := by
  constructor
  · grind [h.unique]
  · intro i hi
    by_cases hib : i = b
    · rw [hib, hb.2.2]
      exact hn
    · rw [hOther i hib] at hi ⊢
      exact h.small i hi
  · intro x hx
    rw [hOther _ (hFree x hx)]
    exact h.root x hx
  · intro x hx
    rw [hOther _ (hFree x hx)]
    exact h.named x hx
  · intro x hx
    rw [hOther _ (hFree x hx)]
    exact h.valid x hx
  · grind [h.data]
  · grind [h.pinned]
  · intro x hx
    rw [hOther _ (hFree x hx)]
    exact h.written x hx
  · grind [h.clean]

lemma Content.log (h : Content page disk stored refs logPins) (hr : r ∈ refs) (hUsable : r.stage.usable = true) :
    Content page disk stored ({ r with stage := .ready .logged } :: refs.erase r)
      (logPins.insert (page r.buf).blockno) := by
  have hValid := h.valid r hr hUsable
  have hPins : Content page disk stored refs (logPins.insert (page r.buf).blockno) := by
    refine ⟨h.unique, h.small, h.root, h.named, h.valid, h.data, fun n hn => ?_, h.written, fun n => ?_⟩
    · rcases List.mem_insert_iff.mp hn with rfl | hn
      · exact ⟨r.buf, h.root r hr, rfl, hValid⟩
      · exact h.pinned n hn
    · grind [h.clean]
  apply hPins.move hr (fun _ => hValid)
  · exact nofun
  · exact fun _ => .inr (.inr (List.mem_insert_iff.mpr (.inl rfl)))

lemma Content.unpin (h : Content page disk stored refs logPins) {n : Nat} (hDisk : disk n = stored n) :
    Content page disk stored refs (logPins.erase n) := by
  refine ⟨h.unique, h.small, h.root, h.named, h.valid, h.data, fun m hm => h.pinned m (List.mem_of_mem_erase hm),
    h.written, fun m => ?_⟩
  by_cases hmn : m = n
  · exact .inl (hmn ▸ hDisk)
  · grind [h.clean]

end

end Xv6K230.Blk
