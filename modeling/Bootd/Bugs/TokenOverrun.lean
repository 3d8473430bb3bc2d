import Bootd.Bugs.Lookahead
import Bootd.Config.TokenWrites

/-!
# Every token puts a NUL behind its buffer

All exits of the tokenizer's loop write the NUL themselves and set `t` to
`TOKENIZE_BUFSIZE + 1`, to leave the loop. Behind it `tok->b[t] = 0` is executed once
more (src/tokenize.c:179), with the index 4097. It is meant for the token that fills
the buffer and has no exit of its own; then it is executed with the index 4096, so
that this token has no NUL.

Counterexample: a file with the token `;` (`semicolon_overruns`).

`token_writes_iff`: the writes of a run of calls are inside the buffers if and only
if nothing is called or the file has no token.
-/
namespace Bootd

/-- The scans of a run of calls. -/
def runScans : List LookCall → GenTokenize → Option (List TokScan)
  | [], _ => some []
  | c :: cs, tk => do
    let (ss, _) ← tk.scans tokenizeFuel
    let (_, _, tk) ← c.run tk
    let rest ← runScans cs tk
    return ss ++ rest

/-- A run writes only inside the tokens' buffers, and puts a NUL into the buffer of every token. -/
def WritesInside (fname : CStr) (fd : List Chunk) (calls : List LookCall) : Prop :=
  ∃ ss, runScans calls (.new fname fd) = some ss ∧ ∀ s ∈ ss, s.Inside ∧ s.Terminated

section
variable {tk tk' : GenTokenize} {n : Nat} {ss : List TokScan} {fname : CStr} {fd : List Chunk}

/-- A scan writes inside the array if and only if it finds no token. -/
theorem scans_inside (hscans : tk.scans n = some (ss, tk')) : ∀ s ∈ ss, s.Inside ↔ s.token = none := by
  induction n generalizing tk ss with
  | zero => cases hscans
  | succ n ih =>
    unfold GenTokenize.scans at hscans
    split at hscans
    · cases hscans
      exact List.forall_mem_nil _
    · obtain ⟨r, hscan, hscans⟩ := Option.bind_eq_some_iff.mp hscans
      have hin := scanWrites_inside hscan
      split at hscans
      · rename_i hfull
        obtain ⟨⟨rest, tk''⟩, hrest, hret⟩ := Option.bind_eq_some_iff.mp hscans
        cases hret
        rw [List.forall_mem_cons]
        refine ⟨iff_of_false (fun h => ?_) (by simp), ih hrest⟩
        have hnone := hin.mp fun u hu => h u (List.mem_cons_of_mem _ hu)
        rw [hfull] at hnone
        cases hnone
      · rename_i hfull
        cases hscans
        rw [List.forall_mem_singleton]
        refine iff_of_true ?_ rfl
        exact List.forall_mem_cons.mpr ⟨by decide, hin.mpr (by simpa using hfull)⟩

/-- Without a token to come the ring is empty. -/
theorem empty_ring (h : tk.Good) (hp : tk.pending = []) :
    tk.ts = -1 ∧ tokens (some tokenizeBufsize) tk.input = [] := by
  obtain ⟨hq, hin⟩ := List.append_eq_nil_iff.mp hp
  refine ⟨(count_empty h).mpr ?_, hin⟩
  have hlen := congrArg List.length hq
  rwa [GenTokenize.queue, List.length_map, Core.Ring.items_length] at hlen

/-- What the first scan of a call finds. -/
theorem scans_first (h : tk.Good) (hne : tk.ts ≠ tk.te) :
    (tokens (some tokenizeBufsize) tk.input = [] → ∃ s tk', tk.scans (n + 1) = some ([s], tk') ∧ s.token = none) ∧
    (tokens (some tokenizeBufsize) tk.input ≠ [] → ∀ ss tk', tk.scans (n + 1) = some (ss, tk') →
      ∃ s ∈ ss, s.token ≠ none) := by
  obtain ⟨r, hscan, -, -, -, hr⟩ := scanToken_spec (n := tk.left + 1) (l := .start)
    (x := (tk.t tk.te).x) (y := (tk.t tk.te).y) h.bounded (by rw [left_eq h.bounded]; omega)
  have htok := tokens_eq limit_ne tk.input
  unfold GenTokenize.scans
  rw [if_neg hne]
  simp only [hscan, Option.bind_eq_bind, Option.bind_some]
  cases hlex : lexOne (some tokenizeBufsize) .start tk.input with
  | eof b =>
    rw [hlex] at hr htok
    rw [hr.1, if_neg Bool.false_ne_true]
    exact ⟨fun _ => ⟨_, _, rfl, rfl⟩, fun hnot => absurd htok hnot⟩
  | tok b rest =>
    rw [hlex] at hr htok
    rw [hr.1, if_pos rfl]
    refine ⟨fun hnil => ?_, fun _ ss tk' hss => ?_⟩
    · rw [htok] at hnil
      cases hnil
    · obtain ⟨⟨rest, tk''⟩, -, hret⟩ := Option.bind_eq_some_iff.mp hss
      cases hret
      exact ⟨_, List.mem_cons_self, by simp⟩

/-- At the end of the tokens a call changes nothing that is to come. -/
theorem look_empty (h : tk.Good) (hp : tk.pending = []) (c : LookCall) :
    ∃ ret w tk', c.run tk = some (ret, w, tk') ∧ tk'.Good ∧ tk'.pending = [] := by
  cases c with
  | next l w =>
    obtain ⟨tk', hg, hp', hret⟩ := next_spec h l w
    rw [hp] at hp' hret
    exact ⟨_, _, tk', hret, hg, hp'⟩
  | ahead k l w =>
    obtain ⟨tk', htk', hg, -, hp'⟩ := tokenize_spec h (show 6 ≤ tokenizeFuel + tk.count by
      unfold tokenizeFuel tokenizeLookahead; omega)
    rw [hp] at hp'
    refine ⟨false, w, tk', ?_, hg, hp'⟩
    unfold LookCall.run GenTokenize.ahead
    simp only [htk', Option.bind_eq_bind, Option.bind_some]
    exact if_pos (empty_ring hg hp').1

/-- Without a token to come nothing is written outside. -/
theorem runScans_empty (h : tk.Good) (hp : tk.pending = []) (calls : List LookCall) :
    ∃ ss, runScans calls tk = some ss ∧ ∀ s ∈ ss, s.Inside ∧ s.Terminated := by
  induction calls generalizing tk with
  | nil => exact ⟨[], rfl, List.forall_mem_nil _⟩
  | cons c calls ih =>
    obtain ⟨hts, hin⟩ := empty_ring h hp
    obtain ⟨s, tk₁, hscans, hnone⟩ := (scans_first (n := tokenizeLookahead + 1) h (by rw [hts]; omega)).1 hin
    obtain ⟨ret, w, tk₂, hrun, hg, hp'⟩ := look_empty h hp c
    obtain ⟨ss, hss, hall⟩ := ih hg hp'
    have hfirst : tk.scans tokenizeFuel = some ([s], tk₁) := hscans
    refine ⟨s :: ss, ?_, List.forall_mem_cons.mpr ⟨⟨?_, fun b hb => ?_⟩, hall⟩⟩
    · simp only [runScans, hfirst, hrun, hss, Option.bind_eq_bind, Option.bind_some]
      rfl
    · exact (scans_inside hfirst s List.mem_cons_self).mpr hnone
    · rw [hnone] at hb
      cases hb

/-- The first call with a token in the file writes behind a buffer. -/
theorem overruns (hne : tokens (some tokenizeBufsize) (fd.map Subtype.val).flatten ≠ []) (c : LookCall)
    (calls : List LookCall) : ¬WritesInside fname fd (c :: calls) := by
  rintro ⟨ss, hss, hall⟩
  obtain ⟨⟨ss₁, tk₁⟩, hscans, hss⟩ := Option.bind_eq_some_iff.mp hss
  obtain ⟨⟨ret, w, tk₂⟩, -, hss⟩ := Option.bind_eq_some_iff.mp hss
  obtain ⟨rest, -, hss⟩ := Option.bind_eq_some_iff.mp hss
  cases hss
  have hfirst : (GenTokenize.new fname fd).scans (tokenizeLookahead + 1 + 1) = some (ss₁, tk₁) := hscans
  have hempty : (-1 : Int) ≠ (0 : Nat) := by decide
  obtain ⟨s, hs, htok⟩ := (scans_first (new_good fname fd) hempty).2 hne ss₁ tk₁ hfirst
  exact htok ((scans_inside hscans s hs).mp (hall s (List.mem_append_left _ hs)).1)

end

/-- **When the tokenizer writes inside its buffers**: for every file, in whatever pieces, and every run of
calls. -/
theorem token_writes_iff (fname : CStr) (fd : List Chunk) (calls : List LookCall) : WritesInside fname fd calls ↔
    calls = [] ∨ tokens (some tokenizeBufsize) (fd.map Subtype.val).flatten = [] := by
  constructor
  · intro h
    by_contra hnot
    obtain ⟨hcalls, htok⟩ := not_or.mp hnot
    obtain ⟨c, calls, rfl⟩ := List.exists_cons_of_ne_nil hcalls
    exact overruns htok c calls h
  · rintro (rfl | hnil)
    · exact ⟨[], rfl, List.forall_mem_nil _⟩
    · exact runScans_empty (new_good fname fd) ((new_pending fname fd).trans hnil) calls

/-- **Counterexample**: the next token of a file with nothing but a `;`. -/
theorem semicolon_overruns : ¬∀ (fname : CStr) (fd : List Chunk) (calls : List LookCall),
    WritesInside fname fd calls := by
  intro hall
  have hnot : ¬WritesInside (cstr "bootd.conf") [⟨[59], by decide⟩] [.next 256 []] := overruns (by decide) _ _
  exact hnot (hall _ _ _)

end Bootd
