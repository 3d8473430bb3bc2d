import Bootd.Config.Loaded
import Bootd.Config.PrintParse
import Bootd.Config.Quote
import Bootd.Config.Scanner

/-!
# A configuration as text

The statements of a forest are words, and a file is one of the many ways to lay them
out: with blanks, line ends and comments between the words, and with each character of
a word plain, behind a backslash or in quotes (`Layout`). `Forest.text` is one such
layout, with a statement a line and a tab for each level of blocks.

`entriesAt` follows the pointers from what `parse_file` returns.

* `layout_tokens`: the tokens of a layout are the words.
* `text_layout`: `Forest.text` is a layout.
* `layout_loads`: the parser finds the forest in every layout, whatever pieces the
  file is read in.
-/
namespace Bootd

open Bootd.Core
open Bootd.Core.Fuel

/-! ## Layouts -/

def IsBlank (c : UInt8) : Prop := c ∈ [32, 9, 10, 13]

instance (c : UInt8) : Decidable (IsBlank c) := inferInstanceAs (Decidable (c ∈ _))

/-- What may stand between two words. -/
inductive Gap : List UInt8 → Prop
  | nil : Gap []
  | blank {c : UInt8} {g : List UInt8} : IsBlank c → Gap g → Gap (c :: g)
  | comment {v : List UInt8} {c : UInt8} {g : List UInt8} : (∀ d ∈ v, d ≠ 10 ∧ d ≠ 13) → c = 10 ∨ c = 13 →
      Gap g → Gap (35 :: (v ++ c :: g))

/-- The spellings of a word. -/
inductive Spelled : CStr → List UInt8 → Prop
  | nil : Spelled [] []
  | plain {c : UInt8} {v s : List UInt8} : IsPlain c → Spelled v s → Spelled (c :: v) (c :: s)
  | escape {c : UInt8} {v s : List UInt8} : c ≠ 0 → Spelled v s → Spelled (c :: v) (92 :: c :: s)
  | double {q v s : List UInt8} : 0 ∉ q → 34 ∉ q → Spelled v s → Spelled (q ++ v) (34 :: (q ++ 34 :: s))
  | single {q v s : List UInt8} : 0 ∉ q → 39 ∉ q → Spelled v s → Spelled (q ++ v) (39 :: (q ++ 39 :: s))

/-- The ways to write words down. A `;` needs no blank in front of it. -/
inductive Layout : List CStr → List UInt8 → Prop
  | done {g : List UInt8} : Gap g → Layout [] g
  | word {g s text : List UInt8} {v : CStr} {c : UInt8} {ts : List CStr} : Gap g → Spelled v s → v ≠ [] →
      IsBlank c → Layout ts text → Layout (v :: ts) (g ++ (s ++ c :: text))
  | semi {g text : List UInt8} {ts : List CStr} : Gap g → Layout ts text →
      Layout (tokSemi :: ts) (g ++ 59 :: text)
  | wordSemi {g s text : List UInt8} {v : CStr} {ts : List CStr} : Gap g → Spelled v s → v ≠ [] →
      Layout ts text → Layout (v :: tokSemi :: ts) (g ++ (s ++ 59 :: text))

section
variable {m : Nat} {b v s g text : List UInt8} {c : UInt8} {ts : List CStr}

/-- In front of a word the machine is silent. -/
theorem feed_blank (hc : IsBlank c) (hm : 0 < m) : feed (some m) .start c = ([], .start) := by
  have hgo : lexChar .start c = .go .start := by
    unfold IsBlank at hc
    simp only [List.mem_cons, List.not_mem_nil, or_false] at hc
    rcases hc with rfl | rfl | rfl | rfl <;> rfl
  exact feed_go hgo hm

theorem feed_comment (hc : c ≠ 10 ∧ c ≠ 13) (hm : 0 < m) :
    feed (some m) ⟨[], false, .none, true⟩ c = ([], ⟨[], false, .none, true⟩) :=
  feed_go (by simp [lexChar, hc]) hm

theorem Gap.silent (h : Gap g) (hm : 0 < m) :
    Mealy.out (feed (some m)) .start g = [] ∧ Mealy.fin (feed (some m)) .start g = .start := by
  induction h with
  | nil => exact ⟨rfl, rfl⟩
  | blank hc _ ih => simp [feed_blank hc hm, ih]
  | @comment v c g hv hc _ ih =>
    have hopen : feed (some m) .start 35 = ([], ⟨[], false, .none, true⟩) := feed_go rfl hm
    have hend : feed (some m) ⟨[], false, .none, true⟩ c = ([], .start) := by
      refine feed_go ?_ hm
      rcases hc with rfl | rfl <;> rfl
    have hquiet : ∀ d ∈ v, feed (some m) ⟨[], false, .none, true⟩ d = ([], ⟨[], false, .none, true⟩) :=
      fun d hd => feed_comment (hv d hd) hm
    obtain ⟨ho, hf⟩ := Mealy.quiet hquiet
    simp [Mealy.out_append, Mealy.fin_append, hopen, ho, hf, hend, ih]

/-- Between two quote marks the characters are added one by one. -/
theorem quote_adds (q : Quote) (hq : q ≠ .none)
    (hv : ∀ c ∈ v, ∀ b, lexChar ⟨b, false, q, false⟩ c = .go ⟨b ++ [c], false, q, false⟩)
    (hm : b.length + v.length < m) :
    let mark := if q = .double then 34 else 39
    Mealy.out (feed (some m)) ⟨b, false, .none, false⟩ (mark :: (v ++ mark :: s)) =
        Mealy.out (feed (some m)) ⟨b ++ v, false, .none, false⟩ s ∧
      Mealy.fin (feed (some m)) ⟨b, false, .none, false⟩ (mark :: (v ++ mark :: s)) =
        Mealy.fin (feed (some m)) ⟨b ++ v, false, .none, false⟩ s := by
  have hopen := feed_open (m := m) (b := b) q hq (by omega)
  have hclose := feed_close (m := m) (b := b ++ v) q hq (by rw [List.length_append]; exact hm)
  obtain ⟨ho, hf⟩ := adds (l := ⟨b, false, q, false⟩) (m := m) hv hm
  simp [Mealy.out_append, Mealy.fin_append, hopen, ho, hf, hclose]

/-- A spelling makes the lexeme longer by the word. -/
theorem Spelled.adds (h : Spelled v s) (hm : b.length + v.length < m) :
    Mealy.out (feed (some m)) ⟨b, false, .none, false⟩ s = [] ∧
      Mealy.fin (feed (some m)) ⟨b, false, .none, false⟩ s = ⟨b ++ v, false, .none, false⟩ := by
  have hne : ∀ {q : List UInt8} {d : UInt8}, d ∉ q → ∀ c ∈ q, c ≠ d := fun hd c hc h => hd (h ▸ hc)
  induction h generalizing b with
  | nil => simp
  | @plain c v s hc _ ih =>
    rw [List.length_cons] at hm
    obtain ⟨ho, hf⟩ := ih (b := b ++ [c]) (by rw [List.length_append, List.length_singleton]; omega)
    have hfeed : feed (some m) ⟨b, false, .none, false⟩ c = ([], ⟨b ++ [c], false, .none, false⟩) :=
      feed_go (lexChar_plain hc b) (by simp only [List.length_append, List.length_singleton]; omega)
    simp [hfeed, ho, hf]
  | @escape c v s hc _ ih =>
    rw [List.length_cons] at hm
    have hone : b.length + [c].length < m := by rw [List.length_singleton]; omega
    obtain ⟨ho₁, hf₁⟩ := escaped_adds (v := [c]) (by simpa using hc.symm) hone
    obtain ⟨ho, hf⟩ := ih (b := b ++ [c]) (by rw [List.length_append, List.length_singleton]; omega)
    have happ : 92 :: c :: s = escaped [c] ++ s := rfl
    simp [happ, Mealy.out_append, Mealy.fin_append, ho₁, hf₁, ho, hf]
  | @double q v s h0 hq _ ih =>
    rw [List.length_append] at hm
    obtain ⟨ho, hf⟩ := ih (b := b ++ q) (by rw [List.length_append]; omega)
    obtain ⟨ho₁, hf₁⟩ := quote_adds (s := s) (b := b) .double (by decide)
      (fun c hc => lexChar_double (hne h0 c hc) (hne hq c hc)) (show b.length + q.length < m by omega)
    exact ⟨ho₁.trans ho, hf₁.trans (by rw [hf, List.append_assoc])⟩
  | @single q v s h0 hq _ ih =>
    rw [List.length_append] at hm
    obtain ⟨ho, hf⟩ := ih (b := b ++ q) (by rw [List.length_append]; omega)
    obtain ⟨ho₁, hf₁⟩ := quote_adds (s := s) (b := b) .single (by decide)
      (fun c hc => lexChar_single (hne h0 c hc) (hne hq c hc)) (show b.length + q.length < m by omega)
    exact ⟨ho₁.trans ho, hf₁.trans (by rw [hf, List.append_assoc])⟩

/-- A gap and a spelled word in front of the rest. -/
theorem spelled_out (hg : Gap g) (h : Spelled v s) (hm : v.length < m) (text : List UInt8) :
    Mealy.out (feed (some m)) .start (g ++ (s ++ text)) =
      Mealy.out (feed (some m)) ⟨v, false, .none, false⟩ text := by
  obtain ⟨ho, hf⟩ := hg.silent (m := m) (by omega)
  obtain ⟨ho₁, hf₁⟩ := h.adds (b := []) (m := m) (by rw [List.length_nil]; omega)
  rw [Mealy.out_append, ho, hf, Mealy.out_append, show Lex.start = ⟨[], false, .none, false⟩ from rfl, ho₁, hf₁]
  rfl

/-- Any blank ends a word. -/
theorem word_end (hv : v ≠ []) (hc : IsBlank c) (text : List UInt8) :
    Mealy.out (feed (some m)) ⟨v, false, .none, false⟩ (c :: text) = v :: Mealy.out (feed (some m)) .start text := by
  have htok : lexChar ⟨v, false, .none, false⟩ c = .tok v := by
    unfold IsBlank at hc
    simp only [List.mem_cons, List.not_mem_nil, or_false] at hc
    rcases hc with rfl | rfl | rfl | rfl <;> simp [lexChar, lexSwitch, hv]
  rw [Mealy.out_cons, feed, htok]
  rfl

/-- **The tokens of a layout are its words.** -/
theorem layout_tokens (h : Layout ts text) (hm : ∀ v ∈ ts, v.length < m) (h1 : 1 < m) :
    tokens (some m) text = ts := by
  rw [tokens_out (fun h0 => by cases h0; omega)]
  induction h with
  | done hg => exact (hg.silent (by omega)).1
  | @word g s text v c ts hg hs hv hc _ ih =>
    simp only [List.mem_cons, forall_eq_or_imp] at hm
    rw [spelled_out hg hs hm.1, word_end hv hc, ih hm.2]
  | semi hg _ ih =>
    obtain ⟨ho, hf⟩ := hg.silent (m := m) (by omega)
    rw [Mealy.out_append, ho, hf, ← ih fun v hv => hm v (List.mem_cons_of_mem _ hv)]
    rfl
  | wordSemi hg hs hv _ ih =>
    simp only [List.mem_cons, forall_eq_or_imp] at hm
    rw [spelled_out hg hs hm.1, word_semi hv, ih hm.2.2]
    rfl

end

/-! ## Writing a forest -/

/-- A character that does not stand for itself gets a backslash. -/
def spell (v : CStr) : List UInt8 := v.flatMap fun c => if IsPlain c then [c] else [92, c]

/-- Words, each with a blank behind it. -/
def spellWords (vs : List CStr) : List UInt8 := vs.flatMap fun v => spell v ++ [32]

/-- A statement a line, with a tab for each block around it. -/
def Forest.text : Nat → Forest → List UInt8
  | _, .nil => []
  | d, .leaf n vs f => List.replicate d 9 ++ (spellWords (n :: vs) ++ 59 :: 10 :: f.text d)
  | d, .block n vs sub f => List.replicate d 9 ++ (spellWords (n :: vs) ++ 123 :: 10 ::
      (sub.text (d + 1) ++ (List.replicate d 9 ++ 125 :: 10 :: f.text d)))

section
variable {v g g' text : List UInt8} {ts vs : List CStr}

theorem spell_spelled (h0 : 0 ∉ v) : Spelled v (spell v) := by
  induction v with
  | nil => exact .nil
  | cons c v ih =>
    simp only [List.mem_cons, not_or] at h0
    unfold spell
    rw [List.flatMap_cons]
    by_cases hc : IsPlain c
    · rw [if_pos hc]
      exact .plain hc (ih h0.2)
    · rw [if_neg hc]
      exact .escape (Ne.symm h0.1) (ih h0.2)

theorem Gap.append (h : Gap g) (h' : Gap g') : Gap (g ++ g') := by
  induction h with
  | nil => exact h'
  | blank hc _ ih => exact .blank hc ih
  | comment hv hc _ ih =>
    rw [List.cons_append, List.append_assoc]
    exact .comment hv hc ih

theorem gap_tabs (d : Nat) : Gap (List.replicate d 9) := by
  induction d with
  | zero => exact .nil
  | succ d ih => exact .blank (by decide) ih

/-- More room in front of the first word. -/
theorem Layout.after (h : Layout ts text) (hg : Gap g) : Layout ts (g ++ text) := by
  cases h with
  | done h => exact .done (hg.append h)
  | word h hs hv hc hl =>
    rw [← List.append_assoc]
    exact .word (hg.append h) hs hv hc hl
  | semi h hl =>
    rw [← List.append_assoc]
    exact .semi (hg.append h) hl
  | wordSemi h hs hv hl =>
    rw [← List.append_assoc]
    exact .wordSemi (hg.append h) hs hv hl

theorem Layout.line (h : Layout ts text) : Layout ts (10 :: text) := h.after (.blank (by decide) .nil)

theorem words_layout (hvs : ∀ v ∈ vs, v ≠ [] ∧ 0 ∉ v) (h : Layout ts text) :
    Layout (vs ++ ts) (spellWords vs ++ text) := by
  induction vs with
  | nil => exact h
  | cons v vs ih =>
    simp only [List.mem_cons, forall_eq_or_imp] at hvs
    have hword : Layout (v :: (vs ++ ts)) ([] ++ (spell v ++ 32 :: (spellWords vs ++ text))) :=
      .word .nil (spell_spelled hvs.1.2) hvs.1.1 (by decide) (ih hvs.2)
    simpa [spellWords] using hword

theorem brace_layout {c : UInt8} (hc : IsPlain c) (h : Layout ts text) : Layout ([c] :: ts) (c :: 10 :: text) :=
  .word .nil (.plain hc .nil) (List.cons_ne_nil c []) (by decide) h

/-- **`Forest.text` is a layout.** -/
theorem text_layout {f : Forest} (hf : ∀ v ∈ f.print, v ≠ [] ∧ 0 ∉ v) (d : Nat) (h : Layout ts text) :
    Layout (f.print ++ ts) (f.text d ++ text) := by
  induction f generalizing d ts text with
  | nil => exact h
  | leaf n vs f ih =>
    simp only [Forest.print, List.cons_append, List.mem_cons, List.mem_append, forall_eq_or_imp] at hf
    have hwords : ∀ v ∈ n :: vs, v ≠ [] ∧ 0 ∉ v := by
      intro v hv
      exact (List.mem_cons.mp hv).elim (fun h => h ▸ hf.1) fun h => hf.2 v (.inl h)
    have hrest : Layout (tokSemi :: (f.print ++ ts)) (59 :: 10 :: (f.text d ++ text)) :=
      .semi .nil (ih (fun v hv => hf.2 v (.inr (.inr hv))) d h).line
    have hline := (words_layout hwords hrest).after (gap_tabs d)
    simpa [Forest.print, Forest.text] using hline
  | block n vs sub f ihs ihf =>
    simp only [Forest.print, List.cons_append, List.mem_cons, List.mem_append, forall_eq_or_imp] at hf
    have hwords : ∀ v ∈ n :: vs, v ≠ [] ∧ 0 ∉ v := by
      intro v hv
      exact (List.mem_cons.mp hv).elim (fun h => h ▸ hf.1) fun h => hf.2 v (.inl h)
    have hf' : Layout (f.print ++ ts) (f.text d ++ text) :=
      ihf (fun v hv => hf.2 v (.inr (.inr (.inr (.inr hv))))) d h
    have hclose : Layout (tokClose :: (f.print ++ ts)) (List.replicate d 9 ++ 125 :: 10 :: (f.text d ++ text)) :=
      (brace_layout (by decide) hf').after (gap_tabs d)
    have hsub : Layout (tokOpen :: (sub.print ++ tokClose :: (f.print ++ ts))) (123 :: 10 :: (sub.text (d + 1) ++
        (List.replicate d 9 ++ 125 :: 10 :: (f.text d ++ text)))) :=
      brace_layout (by decide) (ihs (fun v hv => hf.2 v (.inr (.inr (.inl hv)))) (d + 1) hclose)
    have hline := (words_layout hwords hsub).after (gap_tabs d)
    simpa [Forest.print, Forest.text] using hline

end

/-! ## What the pointers lead to -/

/-- The records from a pointer on, with their blocks. -/
def entriesAt (strs : List CStr) (mem : EntId → Entry) : Nat → Option EntId → Option (List ConfEntry)
  | _, none => some []
  | 0, some _ => none
  | k + 1, some e => do
    let name ← (mem e).name
    let name ← strs[name]?
    let values ← (mem e).values.mapM (strs[·]?)
    let sub ← entriesAt strs mem k (mem e).sub
    let next ← entriesAt strs mem k (mem e).next
    some (⟨e, name, values, sub⟩ :: next)

section
variable {strs : List CStr} {mem : EntId → Entry} {f : Forest} {x : Entry} {n : CStr} {vs : List CStr} {lo k : Nat}

theorem values_read {ps : List StrId} (h : List.Forall₂ (fun p v => strs[p]? = some v) ps vs) :
    ps.mapM (strs[·]?) = some vs := by
  induction h with
  | nil => rfl
  | cons hp _ ih => simp [List.mapM_cons, hp, ih]

theorem entriesAt_step (h : (mem lo).Is strs n vs) {sub next : List ConfEntry}
    (hsub : entriesAt strs mem k (mem lo).sub = some sub) (hnext : entriesAt strs mem k (mem lo).next = some next) :
    entriesAt strs mem (k + 1) (some lo) = some (⟨lo, n, vs, sub⟩ :: next) := by
  obtain ⟨p, hp, hn⟩ := h.name
  simp [entriesAt, hp, hn, values_read h.values, hsub, hnext]

/-- A forest without empty blocks is found again. -/
theorem Holds.read (h : Holds strs mem lo f) (hf : f.Printable) (hk : f.size ≤ k) :
    entriesAt strs mem k (f.link lo) = some (f.entries lo) := by
  induction f generalizing lo k with
  | nil => cases k <;> rfl
  | leaf n vs f ih =>
    obtain ⟨his, hnext, hsub, hrest⟩ := h
    rw [Forest.size] at hk
    obtain ⟨k, rfl⟩ := Nat.exists_eq_add_of_le' (show 1 ≤ k by omega)
    refine entriesAt_step his ?_ (hnext ▸ ih hrest hf.2.2.2 (by omega))
    rw [hsub]
    cases k <;> rfl
  | block n vs sub f ihs ihf =>
    obtain ⟨his, hnext, hsub, hs, hrest⟩ := h
    obtain ⟨-, -, -, hne, hsubf, hf⟩ := hf
    rw [Forest.size] at hk
    obtain ⟨k, rfl⟩ := Nat.exists_eq_add_of_le' (show 1 ≤ k by omega)
    refine entriesAt_step his ?_ (hnext ▸ ihf hrest hf (by omega))
    rw [hsub hne, ← link_ne_nil hne]
    exact ihs hs hsubf (by omega)

theorem print_short (hf : f.Printable) : ∀ v ∈ f.print, v.length ≤ 254 := by
  have hdelim : tokOpen.length ≤ 254 ∧ tokClose.length ≤ 254 ∧ tokSemi.length ≤ 254 := by decide
  induction f with
  | nil => exact fun v hv => nomatch hv
  | leaf n vs f ih =>
    obtain ⟨hn, hvs, -, hf⟩ := hf
    simp only [Forest.print, List.cons_append, List.mem_cons, List.mem_append]
    rintro v (rfl | hv | rfl | hv)
    · exact hn.2
    · exact (hvs v hv).2
    · exact hdelim.2.2
    · exact ih hf v hv
  | block n vs sub f ihs ihf =>
    obtain ⟨hn, hvs, -, -, hsub, hf⟩ := hf
    simp only [Forest.print, List.cons_append, List.mem_cons, List.mem_append]
    rintro v (rfl | hv | rfl | hv | rfl | hv)
    · exact hn.2
    · exact (hvs v hv).2
    · exact hdelim.1
    · exact ihs hsub v hv
    · exact hdelim.2.1
    · exact ihf hf v hv

end

/-- **Every layout of a forest is parsed as that forest**: for every forest that can be
printed and that the tables have room for, with the file in whatever pieces. -/
theorem layout_loads (fname : CStr) (fd : List Chunk) (stack : Nat → Locals) (mem : EntId → Entry) (f : Forest)
    (hne : f ≠ .nil) (hf : f.Printable) (hroom : f.store fname .empty ≠ none)
    (hlay : Layout f.print (fd.map Subtype.val).flatten) :
    ∃ N p st, (∀ k, N ≤ k → parseFile (fileSource fname _) stack mem (.new fname fd rfl) k = .ok p st) ∧
      entriesAt st.tbl.strings st.mem f.size p = some (f.entries 0) := by
  obtain ⟨T, hT⟩ := Option.ne_none_iff_exists'.mp hroom
  have hrest : (fileSource fname _).rest (.new fname fd rfl) = f.print ++ [] := by
    rw [Scanner.new_rest, List.append_nil]
    exact layout_tokens hlay (fun v hv => Nat.lt_of_le_of_lt (print_short hf v hv) (by decide)) (by decide)
  have hblock : Block fname stack ((fileStart fname fd mem).scan stack) f (f.print ++ []) [] _ :=
    print_until stack hf _ T hT .eof
  rw [← hrest] at hblock
  obtain ⟨p, st, hrun, -, hholds, hp⟩ := parse_block (S := fileSource fname _) hblock
  obtain ⟨N, hN⟩ := hrun.enough
  refine ⟨N, p, st, hN, ?_⟩
  rw [hp hne, ← link_ne_nil hne]
  exact hholds.read hf (Nat.le_refl _)

/-- `host a\ b { ip 10.0.0.1; } chroot /;`. -/
def spacedForest : Forest :=
  .block (cstr "host") [cstr "a b"] (.leaf (cstr "ip") [cstr "10.0.0.1"] .nil)
    (.leaf (cstr "chroot") [cstr "/"] .nil)

example : spacedForest.text 0 = cstr "host a\\ b \x7b\n\tip 10.0.0.1 ;\n\x7d\nchroot / ;\n" := by decide

/-- As `Forest.text` writes it, in two pieces. -/
theorem layout_loads_text :
    let fd : List Chunk := [⟨(spacedForest.text 0).take 6, by decide⟩, ⟨(spacedForest.text 0).drop 6, by decide⟩]
    ∃ N p st, (∀ k, N ≤ k → parseFile (fileSource (cstr "bootd.conf") _) (fun _ => plainLocals) (fun _ => .zero)
        (.new (cstr "bootd.conf") fd rfl) k = .ok p st) ∧
      entriesAt st.tbl.strings st.mem 3 p = some (spacedForest.entries 0) :=
  layout_loads (cstr "bootd.conf") _ _ _ spacedForest (by decide) (by decide) (by decide)
    (by simpa using text_layout (f := spacedForest) (by decide) 0 (.done .nil))

end Bootd
