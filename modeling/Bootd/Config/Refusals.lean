import Bootd.Config.Stored

/-!
# Why a statement is refused

The message of a refusal begins with `oversized token: ` exactly if there was room
for the string that was refused, so that its length was the reason. `LongHere`
are the statements for which this is so; the words in front of the one that is too
long are stored by then.

* `long_stops`: they are refused with this message.
* `refused_cases`: all others that are refused, are refused with another one.
* `parse_fails`, `parse_garbled`: whether the report is printed.
-/
namespace Bootd

open Bootd.Core
open Bootd.Core.Fuel

/-- How the message begins. -/
def oversizedToken : CStr := cstr "oversized token: "

/-- The message is about the length of a word. -/
def Oversized (msg : CStr) : Prop := oversizedToken <+: msg

/-- What the message says about a word. -/
def oversizedText (v : CStr) : CStr := oversizedToken ++ v.take 255

/-- There is a slot for a string. -/
def Tables.Room (T : Tables) : Prop := ∃ T', T.stringRoom = .ok T'

/-- A statement that is refused for the length of a word, behind some words of it. -/
inductive LongHere (fname : CStr) : Scan → List CStr → CStr → List CStr → Prop
  | name {σ : Scan} {n : CStr} {T : Tables} (rest : List CStr) : n ≠ tokClose →
      σ.tbl.entryNew = .ok (σ.tbl.entries, T) → T.Room → word σ.c n = none → LongHere fname σ [] n (n :: rest)
  /-- the name of the file, which every entry has -/
  | file {σ : Scan} {n s : CStr} {p : StrId} {T T' : Tables} (rest : List CStr) : n ≠ tokClose →
      σ.tbl.entryNew = .ok (σ.tbl.entries, T) → word σ.c n = some s → T.stringAdd s = .ok (p, T') → T'.Room →
      parseStringMax ≤ fname.length → LongHere fname σ [n] fname (n :: rest)
  | value {σ : Scan} {n v : CStr} {vs : List CStr} {T : Tables} (rest : List CStr) : Head fname σ n vs T → IsValue v →
      vs.length < parseValuesMax → T.Room → word σ.c v = none →
      LongHere fname σ (n :: vs) v (n :: vs ++ v :: rest)

/-- The other messages, which show no word. -/
inductive ShortText : CStr → Prop
  | full : ShortText tblTableFull
  | values : ShortText valuesExceeded

section
variable {T : Tables} {s msg : CStr}

theorem ShortText.not_oversized (h : ShortText msg) : ¬Oversized msg := by
  unfold Oversized
  cases h <;> decide

theorem ShortText.safe (h : ShortText msg) : Log.formatSafe msg = true := by
  cases h <;> decide

theorem oversizedText_safe (v : CStr) : Log.formatSafe (oversizedText v) = Log.formatSafe (v.take 255) :=
  Log.formatSafe_append (by decide)

theorem stringRoom_error (h : T.stringRoom = .error msg) : ShortText msg := by
  unfold Tables.stringRoom at h
  split at h
  · split at h
    · cases h
      exact .full
    · cases h
  · cases h

/-- The two reasons. -/
theorem stringAdd_error (h : T.stringAdd s = .error msg) :
    (T.Room ∧ parseStringMax ≤ s.length ∧ msg = oversizedText s) ∨ (¬T.Room ∧ ShortText msg) := by
  unfold Tables.stringAdd at h
  cases hroom : T.stringRoom with
  | error msg' =>
    rw [hroom] at h
    cases h
    refine .inr ⟨?_, stringRoom_error hroom⟩
    rintro ⟨T', hok⟩
    rw [hroom] at hok
    cases hok
  | ok T' =>
    rw [hroom] at h
    simp only at h
    split at h
    · rename_i hlong
      cases h
      exact .inl ⟨⟨T', hroom⟩, hlong, rfl⟩
    · split at h <;> cases h

theorem stringAdd_long (hroom : T.Room) (h : parseStringMax ≤ s.length) :
    T.stringAdd s = .error (oversizedText s) := by
  obtain ⟨msg, hmsg⟩ := stringAdd_oversized (T := T) h
  rw [hmsg, ((stringAdd_error hmsg).resolve_right fun hno => hno.1 hroom).2.2]

theorem entryNew_error (h : T.entryNew = .error msg) : ShortText msg := by
  unfold Tables.entryNew at h
  split at h
  · split at h
    · cases h
      exact .full
    · cases h
  · cases h

end

section
variable {τ : Type} {S : Source τ} {stack : Nat → Locals} {σ : Scan} {st : ParseState τ} {ts pre : List CStr}

/-- A table with one entry more. -/
theorem words_one {s : ParseState τ} {lo : Nat} (h : s.tbl.entries = lo + 1) :
    s.words lo = (s.mem lo).words s.tbl.strings := by
  rw [words_entry (by omega), ParseState.words, show s.tbl.entries - (lo + 1) = 0 by omega]
  simp

/-- A refusal when the name is added. -/
theorem name_stops {n : CStr} {rest : List CStr} {T : Tables} {w : Buf} {prev res : Option EntId} {P : CStr → Prop}
    (hs : st.tbl = σ.tbl) (hw : w.last = σ.c) (hr : S.rest st.tok = n :: rest)
    (hprev : ∀ p ∈ prev, p < st.tbl.entries) (hn : n ≠ tokClose) (hnew : σ.tbl.entryNew = .ok (σ.tbl.entries, T))
    (hadd : ∀ w', Shows σ.c n w' → ∃ msg, T.stringAdd (strOf w') = .error msg ∧ P msg) :
    StopsAfter S.fname [] P (fun k => parseLoop S stack k w prev res) st := by
  obtain ⟨w₁, hat, hloop⟩ := loop_stmt stack w prev res hr hn
  rw [hw] at hat
  obtain ⟨tok, htok, hshows⟩ := hat.eq
  cases htok
  obtain ⟨msg, hadd, hP⟩ := hadd w₁ hshows
  have hnew' : (st.next S).tbl.entryNew = .ok ((st.next S).tbl.entries, T) := by
    rw [← hs] at hnew; exact hnew
  have hprev' : ∀ p ∈ prev, p < (st.next S).tbl.entries := hprev
  obtain ⟨r, st', hstop, hfile, rfl, htbl, hmem⟩ := head_stop_name (S := S) res hprev' hnew' hadd
  refine ⟨r, st', .of_succ (parseLoop_zero w st) fun k => (hloop k).trans (Exec.bind_stop hstop), hfile, hP, ?_⟩
  have hent : st'.tbl.entries = st.tbl.entries + 1 := by
    rw [htbl]; exact (entryNew_ok hnew').2.1
  have hzero : st'.mem st.tbl.entries = .zero := hmem
  rw [words_one hent, hzero]
  rfl

/-- A refusal when the name of the file is added. -/
theorem file_stops {n s : CStr} {p : StrId} {rest : List CStr} {T T' : Tables} {w : Buf} {prev res : Option EntId}
    {P : CStr → Prop} {msg : CStr} (hs : st.tbl = σ.tbl) (hw : w.last = σ.c) (hr : S.rest st.tok = n :: rest)
    (hprev : ∀ p ∈ prev, p < st.tbl.entries) (hn : n ≠ tokClose) (hnew : σ.tbl.entryNew = .ok (σ.tbl.entries, T))
    (hword : word σ.c n = some s) (hadd : T.stringAdd s = .ok (p, T')) (hfile : T'.stringAdd S.fname = .error msg)
    (hP : P msg) : StopsAfter S.fname [s] P (fun k => parseLoop S stack k w prev res) st := by
  obtain ⟨w₁, hat, hloop⟩ := loop_stmt stack w prev res hr hn
  rw [hw] at hat
  obtain ⟨tok, htok, hshows⟩ := hat.eq
  cases htok
  have hnew' : (st.next S).tbl.entryNew = .ok ((st.next S).tbl.entries, T) := by
    rw [← hs] at hnew; exact hnew
  have hprev' : ∀ p ∈ prev, p < (st.next S).tbl.entries := hprev
  rw [← (hshows.short s hword).1] at hadd
  obtain ⟨r, st', hstop, hname, rfl, htbl, hentry, hvals⟩ := head_stop_file (S := S) res hprev' hnew' hadd hfile
  obtain ⟨hstr, -, hent⟩ := stringAdd_ok hadd
  refine ⟨r, st', .of_succ (parseLoop_zero w st) fun k => (hloop k).trans (Exec.bind_stop hstop), hname, hP, ?_⟩
  have hent : st'.tbl.entries = st.tbl.entries + 1 := by
    rw [htbl, hent]; exact (entryNew_ok hnew').2.1
  have his : (st'.mem st.tbl.entries).Is st'.tbl.strings s [] := by
    refine ⟨⟨p, hentry, ?_⟩, ?_⟩
    · rw [htbl, hstr, (hshows.short s hword).1]
    · rw [show (st'.mem st.tbl.entries).values = [] from hvals]
      exact .nil
  rw [words_one hent, his.words]

/-- A refusal when a value is added. -/
theorem value_stops {n v : CStr} {vs rest : List CStr} {T : Tables} {w : Buf} {prev res : Option EntId}
    {P : CStr → Prop} (hs : st.tbl = σ.tbl) (hw : w.last = σ.c) (hr : S.rest st.tok = n :: vs ++ v :: rest)
    (hprev : ∀ p ∈ prev, p < st.tbl.entries) (head : Head S.fname σ n vs T)
    (hstop : ∀ w' st', At S σ.c (v :: rest) w' st' → st'.tbl = T →
      (st'.mem st.tbl.entries).values.length = vs.length → ∃ r : Report, r.file = S.fname ∧ P r.msg ∧
      Settles .fuel (fun k => parseValues S st.tbl.entries k w') st' (.error r.stop st')) :
    StopsAfter S.fname ((n :: vs).map (List.take 255)) P (fun k => parseLoop S stack k w prev res) st := by
  obtain ⟨w₂, st₂, w₃, st₃, res', -, hloop, hat, hread, hsettles, -⟩ :=
    stmt_run stack prev res hs hw hr hprev head (onward_append _ _ _ _)
  obtain ⟨r, hfile, hP, hfail⟩ := hstop w₃ st₃ hat hread.tbl hread.length
  refine ⟨r, st₃, (hsettles _ hfail).bind_error.succ (parseLoop_zero w st) hloop, hfile, hP, ?_⟩
  obtain ⟨hn, hv⟩ := head.stored
  have his := hread.is
  rw [← hread.tbl] at his
  rw [words_one (hread.tbl ▸ hread.entries), his.words, hn, hv, List.map_cons]

/-- A word that cannot be stored, where there is room for it. -/
theorem Shows.oversized {c : UInt8} {v : CStr} {w : Buf} {T : Tables} (h : Shows c v w) (hroom : T.Room)
    (hlong : word c v = none) : T.stringAdd (strOf w) = .error (oversizedText v) := by
  obtain ⟨hlen, htake⟩ := h.long hlong
  rw [stringAdd_long hroom hlen, oversizedText, htake, oversizedText]

/-- A statement with a word that is too long. -/
theorem long_stops {v : CStr} (h : LongHere S.fname σ pre v ts) :
    From S stack (StopsAfter S.fname (pre.map (List.take 255)) (· = oversizedText v)) σ ts := by
  intro st w prev res hs hc hw hr hprev
  cases h with
  | name rest hn hnew hroom hlong =>
    exact name_stops hs hw hr hprev hn hnew fun w' hshows => ⟨_, hshows.oversized hroom hlong, rfl⟩
  | file rest hn hnew hword hadd hroom hlong =>
    rw [List.map_singleton, ← word_eq hword]
    exact file_stops hs hw hr hprev hn hnew hword hadd (stringAdd_long hroom hlong) rfl
  | value rest head hv hlen hroom hlong =>
    refine value_stops hs hw hr hprev head fun w' st' hat htbl hvals => ?_
    obtain ⟨tok, htok, hshows⟩ := hat.eq
    cases htok
    rw [← htbl] at hroom
    exact ⟨_, rfl, rfl, value_stop_add hat hv (by omega) (hshows.oversized hroom hlong)⟩

/-- The loop stops with another message. -/
def StopsOtherwise {τ : Type} (fname : CStr) (m : Nat → ParseM τ (Option EntId)) (st : ParseState τ) : Prop :=
  ∃ (r : Report) (st' : ParseState τ), Settles .fuel m st (.error r.stop st') ∧ r.file = fname ∧ ShortText r.msg

theorem StopsAfter.otherwise {fname : CStr} {ws : List CStr} {m : Nat → ParseM τ (Option EntId)}
    (h : StopsAfter fname ws ShortText m st) : StopsOtherwise fname m st :=
  let ⟨r, st', hrun, hfile, hP, _⟩ := h
  ⟨r, st', hrun, hfile, hP⟩

/-- A string that is short enough is refused for want of room. -/
theorem short_refused {c : UInt8} {n s msg : CStr} {T : Tables} (hword : word c n = some s)
    (hadd : T.stringAdd s = .error msg) : ShortText msg :=
  ((stringAdd_error hadd).resolve_left fun h => absurd (word_length hword) (not_lt.mpr h.2.1)).2

/-- A name that is refused. -/
theorem name_cases {n : CStr} (rest : List CStr) (hn : n ≠ tokClose) (hadd : σ.tbl.addName σ.c S.fname n = none) :
    (∃ pre v, LongHere S.fname σ pre v (n :: rest)) ∨ From S stack (StopsOtherwise S.fname) σ (n :: rest) := by
  rcases addName_none hadd with ⟨msg, hnew⟩ | ⟨T₁, hnew, hlong | ⟨s, hword, ⟨msg, hs⟩ | ⟨p, T₂, hp, msg, hfile⟩⟩⟩
  · refine .inr fun st w prev res hs hc hw hr hprev => ?_
    obtain ⟨w₁, -, hloop⟩ := loop_stmt stack w prev res hr hn
    rw [← hs] at hnew
    exact ⟨_, _, .of_succ (parseLoop_zero w st) fun k => (hloop k).trans (Exec.bind_stop (head_stop_new hnew)),
      rfl, entryNew_error hnew⟩
  · by_cases hroom : T₁.Room
    · exact .inl ⟨[], n, .name rest hn hnew hroom hlong⟩
    · refine .inr fun st w prev res hs hc hw hr hprev => ?_
      refine (name_stops hs hw hr hprev hn hnew fun w' hshows => ?_).otherwise
      obtain ⟨msg, hmsg⟩ := stringAdd_oversized (T := T₁) (hshows.long hlong).1
      exact ⟨msg, hmsg, ((stringAdd_error hmsg).resolve_left fun h => hroom h.1).2⟩
  · refine .inr fun st w prev res hs' hc hw hr hprev => ?_
    refine (name_stops hs' hw hr hprev hn hnew fun w' hshows => ⟨msg, ?_, short_refused hword hs⟩).otherwise
    rw [(hshows.short s hword).1]
    exact hs
  · rcases stringAdd_error hfile with ⟨hroom, hlong, -⟩ | ⟨-, hover⟩
    · exact .inl ⟨[n], S.fname, .file rest hn hnew hword hp hroom hlong⟩
    · exact .inr fun st w prev res hs hc hw hr hprev =>
        (file_stops hs hw hr hprev hn hnew hword hp hfile hover).otherwise

/-- A value that is refused. -/
theorem value_cases {n v : CStr} {vs : List CStr} {T : Tables} (rest : List CStr) (head : Head S.fname σ n vs T)
    (hv : IsValue v) (hno : vs.length = parseValuesMax ∨ (word σ.c v).bind T.add = none) :
    (∃ pre v', LongHere S.fname σ pre v' (n :: vs ++ v :: rest)) ∨
      From S stack (StopsOtherwise S.fname) σ (n :: vs ++ v :: rest) := by
  by_cases hmax : vs.length = parseValuesMax
  · refine .inr fun st w prev res hs hc hw hr hprev => ?_
    refine (value_stops hs hw hr hprev head fun w' st' hat _ hvals => ?_).otherwise
    exact ⟨_, rfl, .values, value_stop_max hat hv (by rw [hvals, hmax])⟩
  have hadd := hno.resolve_left hmax
  have hlt : vs.length < parseValuesMax := lt_of_le_of_ne head.le hmax
  by_cases hlong : word σ.c v = none ∧ T.Room
  · exact .inl ⟨n :: vs, v, .value rest head hv hlt hlong.2 hlong.1⟩
  · refine .inr fun st w prev res hs hc hw hr hprev => ?_
    refine (value_stops hs hw hr hprev head fun w' st' hat htbl hvals => ?_).otherwise
    obtain ⟨tok, htok, hshows⟩ := hat.eq
    cases htok
    obtain ⟨msg, hmsg⟩ := hshows.refused hadd
    refine ⟨_, rfl, ?_, value_stop_add hat hv (by omega) (by rw [htbl]; exact hmsg)⟩
    cases hword : word σ.c v with
    | none => exact ((stringAdd_error hmsg).resolve_left fun h => hlong ⟨hword, h.1⟩).2
    | some s =>
      rw [(hshows.short s hword).1] at hmsg
      exact short_refused hword hmsg

/-- The statements that are refused. -/
theorem refused_cases (h : FailsHere S.fname σ ts) :
    (∃ pre v, LongHere S.fname σ pre v ts) ∨ From S stack (StopsOtherwise S.fname) σ ts := by
  cases h with
  | name rest hn hadd => exact name_cases rest hn hadd
  | value rest head hv hno => exact value_cases rest head hv hno
  | eof head hlast =>
    refine .inr fun st w prev res hs hc hw hr hprev => ?_
    obtain ⟨init, l, T', hinit, hl, hon, s, hs'⟩ := head.last hlast
    obtain ⟨w₂, st₂, w₃, st₃, res', -, hloop, hat, -, hsettles, -⟩ :=
      stmt_run stack prev res hs hw hr hprev hinit hon
    obtain ⟨r, st', hfail, hfile, hover⟩ := values_eof (e := st.tbl.entries) ShortText .values
      (fun w' T msg hshows hadd => by
        rw [(hshows.short s hs').1] at hadd
        exact short_refused hs' hadd) hat hl
    exact ⟨r, st', (hsettles _ hfail).bind_error.succ (parseLoop_zero w st) hloop, hfile, hover⟩

/-- Such a statement is reached. -/
theorem parse_otherwise {σ' : Scan} (hr : Reaches S.fname stack (st.scan stack) (S.rest st.tok) σ' ts)
    (h : From S stack (StopsOtherwise S.fname) σ' ts) :
    StopsOtherwise S.fname (fun k => parseSub S stack k) st := by
  have hfrom := reaches_from (Q := StopsOtherwise S.fname)
    (fun hg ⟨r, st', hs, hr⟩ => ⟨r, st', hg.settles hs, hr⟩)
    (fun ⟨r, st', hs, hr⟩ => ⟨r, st', hs.bind_error, hr⟩) hr h
  obtain ⟨r, st', hs, hr⟩ := hfrom { st with calls := st.calls + 1 } (stack st.calls).w none
    (stack st.calls).result
    rfl rfl rfl rfl (by simp)
  exact ⟨r, st', hs.congr fun _ => rfl, hr⟩

theorem parse_long {σ' : Scan} {v : CStr} (hr : Reaches S.fname stack (st.scan stack) (S.rest st.tok) σ' ts)
    (h : LongHere S.fname σ' pre v ts) : ∃ (r : Report) (st' : ParseState τ),
      Settles .fuel (fun k => parseSub S stack k) st (.error r.stop st') ∧ r.file = S.fname ∧
      r.msg = oversizedText v := by
  obtain ⟨pre', -, -, hstops⟩ := reaches_stops hr
  obtain ⟨r, st', hs, hfile, hmsg, -⟩ := hstops _ _ (long_stops h) { st with calls := st.calls + 1 }
    (stack st.calls).w none (stack st.calls).result rfl rfl rfl rfl (by simp)
  exact ⟨r, st', hs.congr fun _ => rfl, hfile, hmsg⟩

/-! ## What becomes of the report -/

/-- The statement is refused, and the report about it has a percent sign of its own: one in the name
of the file or in the word that is too long. -/
def GarbledHere (fname : CStr) (σ : Scan) (ts : List CStr) : Prop :=
  FailsHere fname σ ts ∧ (Log.formatSafe fname = false ∨
    ∃ pre v, LongHere fname σ pre v ts ∧ Log.formatSafe (v.take 255) = false)

/-- A report without one is printed. -/
theorem parse_fails {σ' : Scan} (hr : Reaches S.fname stack (st.scan stack) (S.rest st.tok) σ' ts)
    (h : FailsHere S.fname σ' ts) (hsafe : ¬GarbledHere S.fname σ' ts) :
    Fails (fun k => parseSub S stack k) st := by
  have hfile : Log.formatSafe S.fname = true := by
    by_contra hno
    exact hsafe ⟨h, .inl (eq_false_of_ne_true hno)⟩
  rcases refused_cases h with ⟨pre, v, hlong⟩ | hother
  · obtain ⟨r, st', hs, hr, hmsg⟩ := parse_long hr hlong
    have hword : Log.formatSafe (v.take 255) = true := by
      by_contra hno
      exact hsafe ⟨h, .inr ⟨pre, v, hlong, eq_false_of_ne_true hno⟩⟩
    rw [stop_safe (by rw [hr, hfile]) (by rw [hmsg, oversizedText_safe, hword])] at hs
    exact ⟨r, st', hs⟩
  · obtain ⟨r, st', hs, hr, hmsg⟩ := parse_otherwise hr hother
    rw [stop_safe (by rw [hr, hfile]) hmsg.safe] at hs
    exact ⟨r, st', hs⟩

/-- Any other is taken for a format. -/
theorem parse_garbled {σ' : Scan} (hr : Reaches S.fname stack (st.scan stack) (S.rest st.tok) σ' ts)
    (h : GarbledHere S.fname σ' ts) : Garbles (fun k => parseSub S stack k) st := by
  obtain ⟨hfails, hname | ⟨pre, v, hlong, hword⟩⟩ := h
  · rcases refused_cases hfails with ⟨pre, v, hlong⟩ | hother
    · obtain ⟨r, st', hs, hr, -⟩ := parse_long hr hlong
      exact ⟨st', stop_format (r := r) (.inl (by rw [hr, hname])) ▸ hs⟩
    · obtain ⟨r, st', hs, hr, -⟩ := parse_otherwise hr hother
      exact ⟨st', stop_format (r := r) (.inl (by rw [hr, hname])) ▸ hs⟩
  · obtain ⟨r, st', hs, -, hmsg⟩ := parse_long hr hlong
    exact ⟨st', stop_format (r := r) (.inr (by rw [hmsg, oversizedText_safe, hword])) ▸ hs⟩

end
end Bootd
