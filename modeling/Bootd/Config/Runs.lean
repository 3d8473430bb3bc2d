import Bootd.Config.Grammar
import Mathlib.Data.List.Forall2

/-!
# Runs of the parser

Each case of `scan_total` is a case of the code. `Holds` says that a forest is
stored in the table from an entry on: the parser takes entries in the order in
which it comes to the statements, so that a block's forest begins right behind
the entry of its statement.

* `block_run`: a block that is read to its end.
* `stuck_run`, `stops_run`: a loop that never ends, and one that ends with a report.
* `parse_total`: every stream ends in one of these three ways.
-/
namespace Bootd

open Bootd.Core
open Bootd.Core.Fuel

/-! ## What is stored -/

/-- The strings behind the pointers of an entry. -/
structure Entry.Is (strs : List CStr) (x : Entry) (n : CStr) (vs : List CStr) : Prop where
  name : ∃ p, x.name = some p ∧ strs[p]? = some n
  values : List.Forall₂ (fun p v => strs[p]? = some v) x.values vs

/-- The pointer to a forest that is stored from entry `lo` on. -/
def Forest.link (lo : Nat) : Forest → Option EntId
  | .nil => none
  | _ => some lo

/-- The forest is stored from entry `lo` on. -/
def Holds (strs : List CStr) (mem : EntId → Entry) : Nat → Forest → Prop
  | _, .nil => True
  | lo, .leaf n vs f => (mem lo).Is strs n vs ∧ (mem lo).next = f.link (lo + 1) ∧
      (mem lo).sub = none ∧ Holds strs mem (lo + 1) f
  | lo, .block n vs sub f => (mem lo).Is strs n vs ∧ (mem lo).next = f.link (lo + 1 + sub.size) ∧
      (sub ≠ .nil → (mem lo).sub = some (lo + 1)) ∧ Holds strs mem (lo + 1) sub ∧
      Holds strs mem (lo + 1 + sub.size) f

section
variable {strs strs' : List CStr} {mem mem' : EntId → Entry} {lo : Nat} {f : Forest} {x : Entry}
  {n : CStr} {vs : List CStr}

theorem getElem?_prefix {p : StrId} {s : CStr} (hp : strs <+: strs') (h : strs[p]? = some s) :
    strs'[p]? = some s := by
  obtain ⟨more, rfl⟩ := hp
  rw [List.getElem?_append_left (List.getElem?_eq_some_iff.mp h).1]
  exact h

theorem Entry.Is.mono (h : x.Is strs n vs) (hp : strs <+: strs') : x.Is strs' n vs := by
  obtain ⟨p, hx, hs⟩ := h.name
  exact ⟨⟨p, hx, getElem?_prefix hp hs⟩, h.values.imp fun _ _ hs => getElem?_prefix hp hs⟩

/-- Only the entries of the forest count. -/
theorem Holds.frame (h : Holds strs mem lo f) (hp : strs <+: strs')
    (hmem : ∀ i : Nat, lo ≤ i → i < lo + f.size → mem' i = mem i) : Holds strs' mem' lo f := by
  induction f generalizing lo with
  | nil => trivial
  | leaf n vs f ih =>
    simp only [Forest.size] at hmem
    obtain ⟨his, hnext, hsub, hf⟩ := h
    rw [Holds, hmem lo (by omega) (by omega)]
    exact ⟨his.mono hp, hnext, hsub, ih hf fun i h₁ h₂ => hmem i (by omega) (by omega)⟩
  | block n vs sub f ihs ihf =>
    simp only [Forest.size] at hmem
    obtain ⟨his, hnext, hsub, hs, hf⟩ := h
    rw [Holds, hmem lo (by omega) (by omega)]
    exact ⟨his.mono hp, hnext, hsub, ihs hs fun i h₁ h₂ => hmem i (by omega) (by omega),
      ihf hf fun i h₁ h₂ => hmem i (by omega) (by omega)⟩

theorem link_ne_nil (hf : f ≠ .nil) : f.link lo = some lo := by
  cases f with
  | nil => exact absurd rfl hf
  | leaf | block => rfl

end

/-! ## One step each -/

/-- `w` holds a copy of the token. -/
structure Shows (c : UInt8) (tok : CStr) (w : Buf) : Prop where
  last : w.last = c
  delim : ∀ d, strOf w = [d] ↔ tok = [d]
  short : ∀ s, word c tok = some s → strOf w = s ∧ s.length < parseStringMax
  long : word c tok = none → parseStringMax ≤ (strOf w).length ∧ (strOf w).take 255 = tok.take 255

section
variable {τ : Type} {S : Source τ} {stack : Nat → Locals} {st st' : ParseState τ} {c : UInt8} {tok : CStr}
  {w : Buf} {ts : List CStr} {T T' : Tables} {e : EntId} {n v : CStr} {vs : List CStr}
  {prev res : Option EntId}

theorem shows_strncpy (w : Buf) (h0 : 0 ∉ tok) : Shows w.last tok (strncpy w tok parseStringMax) := by
  have h := strOf_strncpy w h0
  refine ⟨last_strncpy w tok, fun d => strOf_strncpy_delim h0, fun s hs => ?_, fun hs => ?_⟩
  · rw [hs] at h; exact h
  · rw [hs] at h
    exact ⟨h, strOf_strncpy_take w h0 hs⟩

theorem Shows.stored (h : Shows c tok w) (hw : word c tok ≠ none) : strOf w = stored c tok := by
  obtain ⟨s, hs⟩ := Option.ne_none_iff_exists'.mp hw
  rw [Bootd.stored, hs]
  exact (h.short s hs).1

/-- A word that cannot be added. -/
theorem Shows.refused (h : Shows c v w) (hno : (word c v).bind T.add = none) :
    ∃ msg, T.stringAdd (strOf w) = .error msg := by
  cases hs : word c v with
  | none => exact stringAdd_oversized (h.long hs).1
  | some s =>
    rw [(h.short s hs).1]
    rw [hs] at hno
    exact add_none.mp hno

/-- The state after `gen_tokenize_next`. -/
def ParseState.next (S : Source τ) (st : ParseState τ) : ParseState τ := { st with tok := (S.next st.tok).2 }

theorem genTokenizeNext_cons (hr : S.rest st.tok = tok :: ts) :
    genTokenizeNext S w st = .ok (true, strncpy w tok parseStringMax) (st.next S) := by
  have hn : (S.next st.tok).1 = some tok := by rw [S.next_eq, hr]; rfl
  simp only [genTokenizeNext, Exec.get_run, hn]
  rfl

theorem genTokenizeNext_nil (hr : S.rest st.tok = []) :
    genTokenizeNext S w st = .ok (false, w) (st.next S) := by
  have hn : (S.next st.tok).1 = none := by rw [S.next_eq, hr]; rfl
  simp only [genTokenizeNext, Exec.get_run, hn]
  rfl

theorem rest_next (hr : S.rest st.tok = ts) : S.rest (st.next S).tok = ts.tail := by
  rw [← hr]; exact S.rest_next st.tok

/-- The word in `w` and the tokens behind it; at the end of the file `w` stays
as it is. -/
structure At (S : Source τ) (c : UInt8) (ts : List CStr) (w : Buf) (st : ParseState τ) : Prop where
  eq : ∃ tok, ts = tok :: S.rest st.tok ∧ Shows c tok w

/-- The tokens from the next one on, after `tok`. -/
def onward (tok : CStr) (ts : List CStr) : List CStr := if ts = [] then [tok] else ts

theorem onward_append (n tok : CStr) (vs ts : List CStr) :
    onward n (vs ++ tok :: ts) = vs ++ tok :: ts := if_neg (by simp)

theorem next_run (h : At S c (tok :: ts) w st) :
    ∃ b w', genTokenizeNext S w st = .ok (b, w') (st.next S) ∧ At S c (onward tok ts) w' (st.next S) := by
  obtain ⟨tok', htok, hw⟩ := h.eq
  cases htok
  cases hr : S.rest st.tok with
  | nil => exact ⟨_, _, genTokenizeNext_nil hr, ⟨tok, by rw [rest_next hr]; rfl, hw⟩⟩
  | cons t ts =>
    refine ⟨_, _, genTokenizeNext_cons hr, ⟨t, by rw [rest_next hr]; rfl, ?_⟩⟩
    exact hw.last ▸ shows_strncpy w (S.nul st.tok t (by rw [hr]; simp))

theorem parseStringAdd_run {p : StrId} {s : CStr} (h : st.tbl.stringAdd s = .ok (p, T)) :
    parseStringAdd S s st = .ok p { st with tbl := T } := by
  simp only [parseStringAdd, Exec.get_run, h]
  rfl

theorem parseStringAdd_refused {s msg : CStr} (h : st.tbl.stringAdd s = .error msg) :
    parseStringAdd S s st = .error (Report.stop ⟨S.fname, S.y st.tok + 1, msg⟩) st := by
  simp only [parseStringAdd, Exec.get_run, h]
  rfl

/-! ## A statement's name -/

theorem addName_some (h : T.addName c S.fname n = some T') : ∃ T₁ T₂ s p q,
    T.entryNew = .ok (T.entries, T₁) ∧ word c n = some s ∧ T₁.stringAdd s = .ok (p, T₂) ∧
      T₂.stringAdd S.fname = .ok (q, T') := by
  simp only [Tables.addName, Option.bind_eq_bind, Option.bind_eq_some_iff, Option.map_eq_some_iff] at h
  obtain ⟨T₁, ⟨⟨e, T₁'⟩, hnew, rfl⟩, T₂, ⟨s, hs, hn⟩, hf⟩ := h
  obtain ⟨p, hp⟩ := add_some.mp hn
  obtain ⟨q, hq⟩ := add_some.mp hf
  cases hn' : T.entryNew with
  | error msg => rw [hn'] at hnew; cases hnew
  | ok r =>
    rw [hn'] at hnew
    cases hnew
    obtain ⟨rfl, -⟩ := entryNew_ok hn'
    exact ⟨_, _, s, p, q, rfl, hs, hp, hq⟩

theorem addName_none (h : T.addName c S.fname n = none) : (∃ msg, T.entryNew = .error msg) ∨
    ∃ T₁, T.entryNew = .ok (T.entries, T₁) ∧ (word c n = none ∨
      ∃ s, word c n = some s ∧ ((∃ msg, T₁.stringAdd s = .error msg) ∨
        ∃ p T₂, T₁.stringAdd s = .ok (p, T₂) ∧ ∃ msg, T₂.stringAdd S.fname = .error msg)) := by
  cases hnew : T.entryNew with
  | error msg => exact .inl ⟨msg, rfl⟩
  | ok r =>
    obtain ⟨e, T₁⟩ := r
    obtain ⟨rfl, -⟩ := entryNew_ok hnew
    refine .inr ⟨T₁, rfl, ?_⟩
    simp only [Tables.addName, hnew, Except.toOption, Option.map_some, Option.bind_eq_bind,
      Option.bind_some] at h
    cases hw : word c n with
    | none => exact .inl rfl
    | some s =>
      refine .inr ⟨s, rfl, ?_⟩
      rw [hw] at h
      simp only [Option.bind_some] at h
      cases hs : T₁.stringAdd s with
      | error msg => exact .inl ⟨msg, rfl⟩
      | ok r =>
        obtain ⟨p, T₂⟩ := r
        rw [add_some.mpr ⟨p, hs⟩, Option.bind_some] at h
        exact .inr ⟨p, T₂, rfl, add_none.mp h⟩

/-- What the entries below `lo` become when `e` is linked behind `prev`. -/
def relink (prev : Option EntId) (e : EntId) (mem : EntId → Entry) (i : EntId) : Entry :=
  if prev = some i then { mem i with next := some e } else mem i

/-- Entry `st.tbl.entries` was made for the name `n`. -/
structure HeadRead (S : Source τ) (c : UInt8) (prev : Option EntId) (n : CStr) (T : Tables)
    (st st' : ParseState τ) : Prop where
  tbl : st'.tbl = T
  calls : st'.calls = st.calls
  entries : T.entries = st.tbl.entries + 1
  strings : st.tbl.strings <+: T.strings
  is : (st'.mem st.tbl.entries).Is T.strings (stored c n) []
  next : (st'.mem st.tbl.entries).next = none
  sub : (st'.mem st.tbl.entries).sub = none
  frame : ∀ i, i < st.tbl.entries → st'.mem i = relink prev st.tbl.entries st.mem i

/-- `linkEntry` writes to the entry before, or to `result`. -/
theorem linkEntry_run (prev res : Option EntId) (e : EntId) (st : ParseState τ)
    (hprev : ∀ p ∈ prev, p ≠ e) :
    ∃ st', linkEntry prev res e st = .ok (if prev = none then some e else res) st' ∧
      st'.tok = st.tok ∧ st'.tbl = st.tbl ∧ st'.calls = st.calls ∧ st'.mem e = st.mem e ∧
      ∀ i, i ≠ e → st'.mem i = relink prev e st.mem i := by
  cases prev with
  | none => exact ⟨st, rfl, rfl, rfl, rfl, rfl, fun i _ => rfl⟩
  | some p =>
    have hp : p ≠ e := hprev p rfl
    refine ⟨_, rfl, rfl, rfl, rfl, Function.update_of_ne hp.symm _ _, fun i _ => ?_⟩
    simp only [ParseState.setEntry, relink, Option.some.injEq]
    by_cases hi : p = i
    · rw [hi, Function.update_self, if_pos rfl]
    · rw [Function.update_of_ne (Ne.symm hi), if_neg hi]

theorem head_run (prev res : Option EntId) (h : At S c (n :: ts) w st)
    (hprev : ∀ p ∈ prev, p < st.tbl.entries) (hadd : st.tbl.addName c S.fname n = some T) :
    ∃ w' st', parseHead S prev res w st =
        .ok (st.tbl.entries, if prev = none then some st.tbl.entries else res, w') st' ∧
      At S c (onward n ts) w' st' ∧ HeadRead S c prev n T st st' := by
  obtain ⟨T₁, T₂, s, p, q, hnew, hs, hp, hq⟩ := addName_some hadd
  obtain ⟨-, hent, hstr⟩ := entryNew_ok hnew
  obtain ⟨hpn, hpre₁, hent₁⟩ := stringAdd_ok hp
  obtain ⟨-, hpre₂, hent₂⟩ := stringAdd_ok hq
  obtain ⟨tok, htok, hw⟩ := h.eq
  cases htok
  obtain ⟨hws, -⟩ := hw.short s hs
  -- the states after each part
  let st₁ : ParseState τ :=
    { st with tbl := T₁, mem := Function.update st.mem st.tbl.entries .zero }
  obtain ⟨st₂, hlink, htok₂, htbl₂, hcalls₂, hmem₂, hframe₂⟩ :=
    linkEntry_run prev res st.tbl.entries st₁ fun p hp => (hprev p hp).ne
  let st₃ : ParseState τ := { st₂ with tbl := T₂ }
  let st₄ := st₃.setEntry st.tbl.entries fun x => { x with
    name := some p, values := [], next := none, sub := none, processed := false, line := S.y st₃.tok }
  let st₅ : ParseState τ := { st₄ with tbl := T }
  let st₆ := st₅.setEntry st.tbl.entries ({ · with filename := some q })
  have hat : At S c (n :: S.rest st.tok) w st₆ := ⟨n, by rw [show st₆.tok = st.tok from htok₂], hw⟩
  obtain ⟨b, w', hnext, hat'⟩ := next_run hat
  have hpar₁ : parseEntryNew S st = .ok st.tbl.entries st₁ := by
    simp only [parseEntryNew, Exec.get_run, hnew]
    rfl
  have hpar₂ : parseStringAdd S (strOf w) st₂ = .ok p st₃ :=
    parseStringAdd_run (by rw [htbl₂, hws]; exact hp)
  have hpar₃ : parseStringAdd S S.fname st₄ = .ok q st₅ := parseStringAdd_run hq
  refine ⟨w', st₆.next S, ?_, hat', ?_⟩
  · unfold parseHead
    rw [Exec.bind_run hpar₁, Exec.bind_run hlink, Exec.bind_run hpar₂, Exec.get_run,
      Exec.bind_run (show setEntry _ _ st₃ = .ok () st₄ from rfl), Exec.bind_run hpar₃,
      Exec.bind_run (show setEntry _ _ st₅ = .ok () st₆ from rfl), Exec.bind_run hnext]
    rfl
  have hself : (st₆.next S).mem st.tbl.entries = { st₂.mem st.tbl.entries with
      name := some p, values := [], next := none, sub := none, processed := false, line := S.y st₃.tok,
      filename := some q } := by
    simp only [ParseState.next, st₆, st₅, st₄, st₃, ParseState.setEntry, Function.update_self]
  refine ⟨rfl, hcalls₂, by rw [hent₂, hent₁, hent], hstr ▸ hpre₁.trans hpre₂, ?_, by rw [hself],
    by rw [hself], fun i hi => ?_⟩
  · rw [hself]
    exact ⟨⟨p, rfl, getElem?_prefix hpre₂ (by rw [stored, hs]; exact hpn)⟩, .nil⟩
  · have hne : i ≠ st.tbl.entries := hi.ne
    calc (st₆.next S).mem i = st₂.mem i := by
          simp only [ParseState.next, st₆, st₅, st₄, st₃, ParseState.setEntry, Function.update_of_ne hne]
      _ = relink prev st.tbl.entries st₁.mem i := hframe₂ i hne
      _ = relink prev st.tbl.entries st.mem i := by
          simp only [relink, st₁, Function.update_of_ne hne]

/-- There is no room for an entry. -/
theorem head_stop_new {msg : CStr} (hnew : st.tbl.entryNew = .error msg) :
    parseHead S prev res w st = .error (Report.stop ⟨S.fname, S.y st.tok + 1, msg⟩) st := by
  have hpar : parseEntryNew S st = .error (Report.stop ⟨S.fname, S.y st.tok + 1, msg⟩) st := by
    simp only [parseEntryNew, Exec.get_run, hnew]
    rfl
  exact Exec.bind_stop hpar

/-- The name is refused. -/
theorem head_stop_name {msg : CStr} (res : Option EntId) (hprev : ∀ p ∈ prev, p < st.tbl.entries)
    (hnew : st.tbl.entryNew = .ok (st.tbl.entries, T)) (hadd : T.stringAdd (strOf w) = .error msg) :
    ∃ (r : Report) (st' : ParseState τ), parseHead S prev res w st = .error r.stop st' ∧
    r.file = S.fname ∧ r.msg = msg ∧ st'.tbl = T ∧
      st'.mem st.tbl.entries = .zero := by
  let st₁ : ParseState τ := { st with tbl := T, mem := Function.update st.mem st.tbl.entries .zero }
  obtain ⟨st₂, hlink, -, htbl₂, -, hmem₂, -⟩ :=
    linkEntry_run prev res st.tbl.entries st₁ fun p hp => (hprev p hp).ne
  have hpar : parseEntryNew S st = .ok st.tbl.entries st₁ := by
    simp only [parseEntryNew, Exec.get_run, hnew]
    rfl
  refine ⟨⟨S.fname, S.y st₂.tok + 1, msg⟩, st₂, ?_, rfl, rfl, htbl₂,
    by rw [hmem₂]; exact Function.update_self ..⟩
  unfold parseHead
  rw [Exec.bind_run hpar, Exec.bind_run hlink, Exec.bind_stop (parseStringAdd_refused (by rw [htbl₂]; exact hadd))]

/-- The name of the file is refused. -/
theorem head_stop_file {p : StrId} {msg : CStr} (res : Option EntId) (hprev : ∀ p ∈ prev, p < st.tbl.entries)
    (hnew : st.tbl.entryNew = .ok (st.tbl.entries, T)) (hadd : T.stringAdd (strOf w) = .ok (p, T'))
    (hfile : T'.stringAdd S.fname = .error msg) :
    ∃ (r : Report) (st' : ParseState τ), parseHead S prev res w st = .error r.stop st' ∧
    r.file = S.fname ∧ r.msg = msg ∧ st'.tbl = T' ∧
      (st'.mem st.tbl.entries).name = some p ∧ (st'.mem st.tbl.entries).values = [] := by
  let st₁ : ParseState τ := { st with tbl := T, mem := Function.update st.mem st.tbl.entries .zero }
  obtain ⟨st₂, hlink, -, htbl₂, -⟩ :=
    linkEntry_run prev res st.tbl.entries st₁ fun p hp => (hprev p hp).ne
  have hpar : parseEntryNew S st = .ok st.tbl.entries st₁ := by
    simp only [parseEntryNew, Exec.get_run, hnew]
    rfl
  let st₃ : ParseState τ := { st₂ with tbl := T' }
  let st₄ := st₃.setEntry st.tbl.entries fun x => { x with
    name := some p, values := [], next := none, sub := none, processed := false, line := S.y st₃.tok }
  have hpar₂ : parseStringAdd S (strOf w) st₂ = .ok p st₃ := parseStringAdd_run (by rw [htbl₂]; exact hadd)
  have hself : (st₄.mem st.tbl.entries).name = some p ∧ (st₄.mem st.tbl.entries).values = [] := by
    simp only [st₄, ParseState.setEntry, Function.update_self, and_self]
  refine ⟨⟨S.fname, S.y st₄.tok + 1, msg⟩, st₄, ?_, rfl, rfl, rfl, hself⟩
  unfold parseHead
  rw [Exec.bind_run hpar, Exec.bind_run hlink, Exec.bind_run hpar₂, Exec.get_run,
    Exec.bind_run (show setEntry _ _ st₃ = .ok () st₄ from rfl),
    Exec.bind_stop (parseStringAdd_refused (show st₄.tbl.stringAdd S.fname = _ from hfile))]

theorem head_refused (prev res : Option EntId) (h : At S c (n :: ts) w st)
    (hprev : ∀ p ∈ prev, p < st.tbl.entries) (hadd : st.tbl.addName c S.fname n = none) :
    ∃ (r : Report) (st' : ParseState τ), parseHead S prev res w st = .error r.stop st' := by
  obtain ⟨tok, htok, hw⟩ := h.eq
  cases htok
  rcases addName_none hadd with ⟨msg, hnew⟩ | ⟨T₁, hnew, hrest⟩
  · exact ⟨_, st, head_stop_new hnew⟩
  have hname : (∃ msg, T₁.stringAdd (strOf w) = .error msg) ∨
      ∃ p T₂, T₁.stringAdd (strOf w) = .ok (p, T₂) ∧ ∃ msg, T₂.stringAdd S.fname = .error msg := by
    rcases hrest with hlong | ⟨s, hs, hrest⟩
    · exact .inl (stringAdd_oversized (hw.long hlong).1)
    · rw [(hw.short s hs).1]; exact hrest
  rcases hname with ⟨msg, hname⟩ | ⟨p, T₂, hp, msg, hfile⟩
  · obtain ⟨r, st', hr, -⟩ := head_stop_name (S := S) res hprev hnew hname
    exact ⟨r, st', hr⟩
  · obtain ⟨r, st', hr, -⟩ := head_stop_file (S := S) res hprev hnew hp hfile
    exact ⟨r, st', hr⟩

/-! ## Its values -/

/-- The values `vs` were added to entry `e`. -/
structure ValuesRead (c : UInt8) (e : EntId) (vs : List CStr) (T : Tables) (st st' : ParseState τ) :
    Prop where
  tbl : st'.tbl = T
  calls : st'.calls = st.calls
  entries : T.entries = st.tbl.entries
  strings : st.tbl.strings <+: T.strings
  entry : ∃ ids, st'.mem e = { st.mem e with values := (st.mem e).values ++ ids } ∧
    List.Forall₂ (fun p v => T.strings[p]? = some v) ids (vs.map (stored c))
  frame : ∀ i, i ≠ e → st'.mem i = st.mem i

theorem ValuesRead.refl (c : UInt8) (e : EntId) (st : ParseState τ) : ValuesRead c e [] st.tbl st st :=
  ⟨rfl, rfl, rfl, List.prefix_refl _, ⟨[], by simp, .nil⟩, fun _ _ => rfl⟩

theorem ValuesRead.trans {st₁ : ParseState τ} {vs' : List CStr} (h : ValuesRead c e vs T st st₁)
    (h' : ValuesRead c e vs' T' st₁ st') : ValuesRead c e (vs ++ vs') T' st st' := by
  obtain ⟨ids, hmem, hids⟩ := h.entry
  obtain ⟨ids', hmem', hids'⟩ := h'.entry
  have hpre : T.strings <+: T'.strings := h.tbl ▸ h'.strings
  refine ⟨h'.tbl, h'.calls.trans h.calls, h'.entries.trans (h.tbl ▸ h.entries), h.strings.trans hpre,
    ⟨ids ++ ids', ?_, ?_⟩, fun i hi => (h'.frame i hi).trans (h.frame i hi)⟩
  · rw [hmem', hmem, List.append_assoc]
  · rw [List.map_append]
    exact List.rel_append (hids.imp fun _ _ hs => getElem?_prefix hpre hs) hids'

/-- What the loop compares `w` with. -/
theorem At.cases_run (h : At S c (tok :: ts) w st) :
    (strOf w = tokOpen ↔ tok = tokOpen) ∧ (strOf w = tokSemi ↔ tok = tokSemi) ∧
      (strOf w = tokComma ↔ tok = tokComma) ∧ (strOf w = tokBar ↔ tok = tokBar) ∧
      (strOf w = tokClose ↔ tok = tokClose) := by
  obtain ⟨tok', htok, hw⟩ := h.eq
  cases htok
  exact ⟨hw.delim _, hw.delim _, hw.delim _, hw.delim _, hw.delim _⟩

theorem parseValues_zero (e : EntId) (w : Buf) (st : ParseState τ) :
    ∃ st', parseValues S e 0 w st = .error .fuel st' := ⟨st, rfl⟩

/-- A token that is no value ends the loop or keeps it going round. -/
theorem values_end (h : At S c (tok :: ts) w st) (ht : tok = tokOpen ∨ tok = tokSemi) :
    Settles .fuel (fun n => parseValues S e n w) st (.ok w st) := by
  obtain ⟨hopen, hsemi, -⟩ := h.cases_run
  refine .of_succ (parseValues_zero e w st) fun n => ?_
  rw [parseValues, if_pos (by rw [hopen, hsemi]; exact ht)]
  rfl

theorem values_stuck (h : At S c (tok :: ts) w st) (ht : IsSep tok) :
    Starves .fuel (fun n => parseValues S e n w) st := by
  obtain ⟨hopen, hsemi, hcomma, hbar, -⟩ := h.cases_run
  refine Starves.cycle (parseValues_zero e w st) fun n => ?_
  have hnot : ¬(strOf w = tokOpen ∨ strOf w = tokSemi) := by
    rw [hopen, hsemi]
    rcases ht with rfl | rfl <;> decide
  rw [parseValues, if_neg hnot, if_pos (by rw [hcomma, hbar]; exact ht)]

/-- What the loop does with a token that is a value. -/
theorem parseValues_value (h : At S c (v :: ts) w st) (hv : IsValue v) (n : Nat) :
    parseValues S e (n + 1) w st =
      if parseValuesMax ≤ (st.mem e).values.length then
        genTokenizeError S valuesExceeded st
      else (do
        let p ← parseStringAdd S (strOf w)
        setEntry e fun x => { x with values := x.values ++ [p] }
        let (_, w) ← genTokenizeNext S w
        parseValues S e n w : ParseM τ Buf) st := by
  obtain ⟨hopen, hsemi, hcomma, hbar, -⟩ := h.cases_run
  obtain ⟨h₁, h₂, h₃, h₄⟩ := hv
  rw [parseValues, if_neg (by rw [hopen, hsemi]; exact not_or.mpr ⟨h₁, h₂⟩),
    if_neg (by rw [hcomma, hbar]; exact not_or.mpr ⟨h₃, h₄⟩), Exec.get_run]
  split <;> rfl

theorem value_step (h : At S c (v :: ts) w st) (hv : IsValue v)
    (hroom : (st.mem e).values.length < parseValuesMax) (hadd : (word c v).bind st.tbl.add = some T) :
    ∃ w' st', (∀ n, parseValues S e (n + 1) w st = parseValues S e n w' st') ∧
      At S c (onward v ts) w' st' ∧ ValuesRead c e [v] T st st' := by
  obtain ⟨s, hs, hadd⟩ := Option.bind_eq_some_iff.mp hadd
  obtain ⟨p, hp⟩ := add_some.mp hadd
  obtain ⟨hpv, hpre, hent⟩ := stringAdd_ok hp
  obtain ⟨tok, htok, hw⟩ := h.eq
  cases htok
  obtain ⟨hws, -⟩ := hw.short s hs
  let st₁ : ParseState τ := { st with tbl := T }
  let st₂ := st₁.setEntry e fun x => { x with values := x.values ++ [p] }
  obtain ⟨b, w', hnext, hat⟩ := next_run (show At S c (v :: S.rest st.tok) w st₂ from ⟨v, rfl, hw⟩)
  have hpar : parseStringAdd S (strOf w) st = .ok p st₁ := parseStringAdd_run (by rw [hws]; exact hp)
  refine ⟨w', st₂.next S, fun n => ?_, hat, rfl, rfl, hent, hpre, ⟨[p], ?_, ?_⟩, fun i hi => ?_⟩
  · rw [parseValues_value h hv n, if_neg (by omega), Exec.bind_run hpar,
      Exec.bind_run (show setEntry _ _ st₁ = .ok () st₂ from rfl), Exec.bind_run hnext]
  · simp only [ParseState.next, st₂, ParseState.setEntry, Function.update_self, st₁]
  · exact .cons (by rw [stored, hs]; exact hpv) .nil
  · simp only [ParseState.next, st₂, ParseState.setEntry, Function.update_of_ne hi, st₁]

/-- There are too many values. -/
theorem value_stop_max (h : At S c (v :: ts) w st) (hv : IsValue v)
    (hroom : parseValuesMax ≤ (st.mem e).values.length) : Settles .fuel (fun n => parseValues S e n w) st
      (.error (Report.stop ⟨S.fname, S.y st.tok + 1, valuesExceeded⟩) st) :=
  .of_succ (parseValues_zero e w st) fun n => (parseValues_value h hv n).trans (if_pos hroom)

/-- The value is refused. -/
theorem value_stop_add {msg : CStr} (h : At S c (v :: ts) w st) (hv : IsValue v)
    (hroom : ¬parseValuesMax ≤ (st.mem e).values.length) (hadd : st.tbl.stringAdd (strOf w) = .error msg) :
    Settles .fuel (fun n => parseValues S e n w) st (.error (Report.stop ⟨S.fname, S.y st.tok + 1, msg⟩) st) :=
  .of_succ (parseValues_zero e w st) fun n =>
    ((parseValues_value h hv n).trans (if_neg hroom)).trans (Exec.bind_stop (parseStringAdd_refused hadd))

/-- A value that is refused. -/
theorem value_refused (h : At S c (v :: ts) w st) (hv : IsValue v)
    (hno : parseValuesMax ≤ (st.mem e).values.length ∨ (word c v).bind st.tbl.add = none) :
    ∃ (r : Report) (st' : ParseState τ),
      Settles .fuel (fun n => parseValues S e n w) st (.error r.stop st') := by
  obtain ⟨tok, htok, hw⟩ := h.eq
  cases htok
  by_cases hroom : parseValuesMax ≤ (st.mem e).values.length
  · exact ⟨_, st, value_stop_max h hv hroom⟩
  · obtain ⟨msg, hadd⟩ := hw.refused (hno.resolve_left hroom)
    exact ⟨_, st, value_stop_add h hv hroom hadd⟩

/-- The values in front of another token. -/
theorem values_run (hplain : ∀ v ∈ vs, IsValue v) (h : At S c (vs ++ tok :: ts) w st)
    (hroom : (st.mem e).values.length + vs.length ≤ parseValuesMax)
    (hadd : st.tbl.addValues c vs = some T) :
    ∃ w' st', At S c (tok :: ts) w' st' ∧ ValuesRead c e vs T st st' ∧
      (∀ r, Settles .fuel (fun n => parseValues S e n w') st' r →
        Settles .fuel (fun n => parseValues S e n w) st r) ∧
      (Starves .fuel (fun n => parseValues S e n w') st' →
        Starves .fuel (fun n => parseValues S e n w) st) := by
  induction vs generalizing w st with
  | nil =>
    cases hadd
    exact ⟨w, st, h, .refl c e st, fun _ hr => hr, fun hr => hr⟩
  | cons v vs ih =>
    simp only [List.mem_cons, forall_eq_or_imp] at hplain
    simp only [List.length_cons] at hroom
    rw [addValues_cons] at hadd
    obtain ⟨T₁, hv, hvs⟩ := Option.bind_eq_some_iff.mp hadd
    obtain ⟨w₁, st₁, hstep, hat, hread⟩ := value_step (e := e) h hplain.1 (by omega) hv
    have hne : vs ++ tok :: ts ≠ [] := by simp
    obtain ⟨ids, hmem, hids⟩ := hread.entry
    have hlen : ids.length = 1 := by simpa using hids.length_eq
    obtain ⟨w', st', hat', hread', hsettles, hstarves⟩ := ih hplain.2
      (by simpa [onward, hne] using hat) (by rw [hmem]; simp; omega) (by rw [hread.tbl]; exact hvs)
    refine ⟨w', st', hat', hread.trans hread', fun r hr => ?_, fun hr => ?_⟩
    · exact (hsettles r hr).succ (parseValues_zero e w st) hstep
    · exact (hstarves hr).succ (parseValues_zero e w st) hstep

/-- The end of the file behind a value: it is added again and again. -/
theorem values_eof (P : CStr → Prop) (hmax : P valuesExceeded)
    (hadd : ∀ (w' : Buf) (T : Tables) (msg : CStr), Shows c v w' → T.stringAdd (strOf w') = .error msg → P msg)
    (h : At S c [v] w st) (hv : IsValue v) :
    ∃ (r : Report) (st' : ParseState τ),
      Settles .fuel (fun n => parseValues S e n w) st (.error r.stop st') ∧ r.file = S.fname ∧ P r.msg := by
  induction hk : parseValuesMax - (st.mem e).values.length generalizing w st with
  | zero => exact ⟨_, st, value_stop_max h hv (by omega), rfl, hmax⟩
  | succ k ih =>
    cases hT : (word c v).bind st.tbl.add with
    | none =>
      obtain ⟨tok, htok, hw⟩ := h.eq
      rw [← (List.cons.inj htok).1] at hw
      obtain ⟨msg, hmsg⟩ := hw.refused hT
      exact ⟨_, st, value_stop_add h hv (by omega) hmsg, rfl, hadd w _ msg hw hmsg⟩
    | some T =>
      obtain ⟨w₁, st₁, hstep, hat, hread⟩ := value_step (e := e) h hv (by omega) hT
      obtain ⟨ids, hmem, hids⟩ := hread.entry
      have hlen : ids.length = 1 := by simpa using hids.length_eq
      obtain ⟨r, st', hr, hfile, hP⟩ := ih hat (by rw [hmem]; simp only [List.length_append]; omega)
      exact ⟨r, st', hr.succ (parseValues_zero e w st) hstep, hfile, hP⟩

/-! ## A statement -/

/-- The name and the values of a statement were read into entry
`st.tbl.entries`. -/
structure StmtRead (c : UInt8) (prev : Option EntId) (n : CStr) (vs : List CStr) (T : Tables)
    (st st' : ParseState τ) : Prop where
  tbl : st'.tbl = T
  calls : st'.calls = st.calls
  entries : T.entries = st.tbl.entries + 1
  strings : st.tbl.strings <+: T.strings
  is : (st'.mem st.tbl.entries).Is T.strings (stored c n) (vs.map (stored c))
  next : (st'.mem st.tbl.entries).next = none
  sub : (st'.mem st.tbl.entries).sub = none
  frame : ∀ i, i < st.tbl.entries → st'.mem i = relink prev st.tbl.entries st.mem i

theorem HeadRead.values {st₁ : ParseState τ} (h : HeadRead S c prev n T st st₁)
    (hv : ValuesRead c st.tbl.entries vs T' st₁ st') : StmtRead c prev n vs T' st st' := by
  obtain ⟨ids, hmem, hids⟩ := hv.entry
  obtain ⟨p, hname, hp⟩ := h.is.name
  have hpre : T.strings <+: T'.strings := h.tbl ▸ hv.strings
  have hvals : (st₁.mem st.tbl.entries).values = [] := List.forall₂_nil_right_iff.mp h.is.values
  refine ⟨hv.tbl, hv.calls.trans h.calls, hv.entries.trans (h.tbl ▸ h.entries), h.strings.trans hpre, ?_,
    by rw [hmem]; exact h.next, by rw [hmem]; exact h.sub, fun i hi => ?_⟩
  · rw [hmem]
    exact ⟨⟨p, hname, getElem?_prefix hpre hp⟩, by rw [hvals]; exact hids⟩
  · exact (hv.frame i hi.ne).trans (h.frame i hi)

/-- The loop of `parse_sub` behind the values. -/
def loopTail (S : Source τ) (stack : Nat → Locals) (e : EntId) (result : Option EntId) (fuel : Nat)
    (w : Buf) : ParseM τ (Option EntId) := do
  if strOf w = tokOpen then
    let locals ← enterSub stack
    let sub ← parseLoop S stack fuel locals.w none locals.result
    setEntry e ({ · with sub := sub })
  parseLoop S stack fuel w (some e) result

theorem parseLoop_zero (w : Buf) (st : ParseState τ) :
    ∃ st', parseLoop S stack 0 w prev res st = .error .fuel st' := ⟨st, rfl⟩

/-- The end of the file, or of the block. -/
theorem loop_end (ts : List CStr) (hr : S.rest st.tok = [] ∨ S.rest st.tok = tokClose :: ts) :
    Settles .fuel (fun k => parseLoop S stack k w prev res) st (.ok res (st.next S)) := by
  refine .of_succ (parseLoop_zero w st) fun k => ?_
  rcases hr with hr | hr
  · rw [parseLoop, Exec.bind_run (genTokenizeNext_nil hr)]
    simp
  · have hw := (shows_strncpy w (S.nul st.tok tokClose (by rw [hr]; simp))).delim
    rw [parseLoop, Exec.bind_run (genTokenizeNext_cons hr)]
    have hclose : strOf (strncpy w tokClose parseStringMax) = tokClose := (hw _).mpr rfl
    simp [hclose]

/-- The loop at the start of a statement. -/
theorem loop_stmt (stack : Nat → Locals) (w : Buf) (prev res : Option EntId)
    (hr : S.rest st.tok = n :: ts) (hn : n ≠ tokClose) :
    ∃ w₁, At S w.last (n :: ts) w₁ (st.next S) ∧ ∀ k, parseLoop S stack (k + 1) w prev res st =
      (parseHead S prev res w₁ >>= fun r =>
        parseValues S r.1 k r.2.2 >>= loopTail S stack r.1 r.2.1 k) (st.next S) := by
  have hw := shows_strncpy w (S.nul st.tok n (by rw [hr]; simp))
  refine ⟨_, ⟨n, by rw [rest_next hr]; rfl, hw⟩, fun k => ?_⟩
  have hclose : strOf (strncpy w n parseStringMax) ≠ tokClose := fun h => hn ((hw.delim _).mp h)
  rw [parseLoop, Exec.bind_run (genTokenizeNext_cons hr)]
  simp only [hclose, ne_eq, not_false_eq_true, and_self, if_true]
  rfl

/-- A statement whose values are followed by `tok`. -/
theorem stmt_run {σ : Scan} (stack : Nat → Locals) (prev res : Option EntId) (hs : st.tbl = σ.tbl)
    (hc : w.last = σ.c) (hr : S.rest st.tok = n :: ts)
    (hprev : ∀ p ∈ prev, p < st.tbl.entries) (head : Head S.fname σ n vs T) {ts' : List CStr}
    (hon : onward n ts = vs ++ tok :: ts') :
    ∃ w₂ st₂ w₃ st₃ res', (res' = if prev = none then some st.tbl.entries else res) ∧
      (∀ k, parseLoop S stack (k + 1) w prev res st =
        (parseValues S st.tbl.entries k w₂ >>= loopTail S stack st.tbl.entries res' k) st₂) ∧
      At S σ.c (tok :: ts') w₃ st₃ ∧ StmtRead σ.c prev n vs T st st₃ ∧
      (∀ r, Settles .fuel (fun k => parseValues S st.tbl.entries k w₃) st₃ r →
        Settles .fuel (fun k => parseValues S st.tbl.entries k w₂) st₂ r) ∧
      (Starves .fuel (fun k => parseValues S st.tbl.entries k w₃) st₃ →
        Starves .fuel (fun k => parseValues S st.tbl.entries k w₂) st₂) := by
  obtain ⟨w₁, hat₁, hloop⟩ := loop_stmt stack w prev res hr head.name
  obtain ⟨T₁, hname, hvals⟩ := Option.bind_eq_some_iff.mp head.granted
  rw [hc] at hat₁
  obtain ⟨w₂, st₂, hhead, hat₂, hread⟩ := head_run prev res hat₁ hprev
    (show (st.next S).tbl.addName σ.c S.fname n = some T₁ by rw [← hs] at hname; exact hname)
  have hread : HeadRead S σ.c prev n T₁ st st₂ := { hread with }
  have hempty : (st₂.mem st.tbl.entries).values = [] := List.forall₂_nil_right_iff.mp hread.is.values
  rw [hon] at hat₂
  obtain ⟨w₃, st₃, hat₃, hvread, hsettles, hstarves⟩ := values_run (e := st.tbl.entries) head.plain hat₂
    (by rw [hempty]; simpa using head.le) (by rw [hread.tbl]; exact hvals)
  exact ⟨w₂, st₂, w₃, st₃, _, rfl, fun k => (hloop k).trans (Exec.bind_run hhead), hat₃,
    hread.values hvread, hsettles, hstarves⟩

/-! ## A block -/

/-- The forest was read into the entries from `st.tbl.entries` on. -/
structure BlockRead (S : Source τ) (σ' : Scan) (f : Forest) (rest : List CStr) (prev : Option EntId)
    (st st' : ParseState τ) : Prop where
  tbl : st'.tbl = σ'.tbl
  calls : st'.calls = σ'.calls
  rest : S.rest st'.tok = rest
  entries : st'.tbl.entries = st.tbl.entries + f.size
  strings : st.tbl.strings <+: st'.tbl.strings
  holds : Holds st'.tbl.strings st'.mem st.tbl.entries f
  frame : ∀ i, i < st.tbl.entries →
    st'.mem i = if f = .nil then st.mem i else relink prev st.tbl.entries st.mem i

variable {σ σ' : Scan} {f sub : Forest} {rest : List CStr}

theorem relink_none (lo : EntId) (mem : EntId → Entry) (i : EntId) : relink none lo mem i = mem i := rfl

theorem relink_self (lo : EntId) (mem : EntId → Entry) (e : EntId) :
    relink (some e) lo mem e = { mem e with next := some lo } := if_pos rfl

theorem relink_other {lo e i : EntId} (mem : EntId → Entry) (hi : i ≠ e) :
    relink (some e) lo mem i = mem i := if_neg fun h => hi (Option.some.inj h).symm

/-- The entry of a statement, after what follows was linked behind it. -/
theorem linked_entry {x : Entry} {lo : Nat} (hx : x.next = none) :
    (if f = .nil then x else { x with next := some lo }) = { x with next := f.link lo } := by
  cases f with
  | nil => rw [if_pos rfl]; exact congrArg (fun o => { x with next := o }) hx
  | leaf | block => rw [if_neg (by simp)]; rfl

/-- From every state that `σ` describes, the loop reads the forest `f`. -/
def Runs (S : Source τ) (stack : Nat → Locals) (σ : Scan) (f : Forest) (ts rest : List CStr) (σ' : Scan) :
    Prop :=
  ∀ (st : ParseState τ) (w : Buf) (prev res : Option EntId), st.tbl = σ.tbl → st.calls = σ.calls →
    w.last = σ.c → S.rest st.tok = ts → (∀ p ∈ prev, p < st.tbl.entries) →
    ∃ st', Settles .fuel (fun k => parseLoop S stack k w prev res) st
        (.ok (if prev = none ∧ f ≠ .nil then some st.tbl.entries else res) st') ∧
      BlockRead S σ' f rest prev st st'

theorem runs_nil (σ : Scan) (hts : ts = [] ∧ rest = [] ∨ ts = tokClose :: rest) :
    Runs S stack σ .nil ts rest σ := by
  intro st w prev res hs hc _ hr _
  have hif : (if prev = none ∧ Forest.nil ≠ .nil then some st.tbl.entries else res) = res :=
    if_neg fun h => h.2 rfl
  have hrest : S.rest (st.next S).tok = rest := by
    rw [rest_next hr]
    rcases hts with ⟨rfl, rfl⟩ | rfl <;> rfl
  rw [hif]
  refine ⟨st.next S, loop_end rest (hts.imp (fun h => hr.trans h.1) fun h => hr.trans h), ?_⟩
  exact ⟨hs, hc, hrest, rfl, List.prefix_refl _, trivial, fun _ _ => rfl⟩

theorem lt_prev {lo : Nat} : ∀ p ∈ some lo, p < lo + 1 := by
  intro p hp
  cases hp
  exact Nat.lt_succ_self _

/-- A statement that ends in `;`: the loop goes on behind it. -/
theorem leaf_goes {ts' : List CStr} (stack : Nat → Locals) (res : Option EntId) (hs : st.tbl = σ.tbl)
    (hw : w.last = σ.c) (hr : S.rest st.tok = n :: ts) (hprev : ∀ p ∈ prev, p < st.tbl.entries)
    (head : Head S.fname σ n vs T)
    (hon : onward n ts = vs ++ tokSemi :: ts') :
    ∃ w₃ st₃ res', (res' = if prev = none then some st.tbl.entries else res) ∧
      StmtRead σ.c prev n vs T st st₃ ∧ w₃.last = σ.c ∧ S.rest st₃.tok = ts' ∧
      Goes .fuel (fun k => parseLoop S stack k w prev res) st
        (fun k => parseLoop S stack k w₃ (some st.tbl.entries) res') st₃ := by
  obtain ⟨w₂, st₂, w₃, st₃, res', hres, hloop, hat, hread, hsettles, -⟩ :=
    stmt_run stack prev res hs hw hr hprev head hon
  obtain ⟨tok, htok, hshows⟩ := hat.eq
  cases htok
  refine ⟨w₃, st₃, res', hres, hread, hshows.last, rfl, ?_⟩
  refine .succ (parseLoop_zero w st) hloop
    (.bind (hsettles _ (values_end hat (.inr rfl))) (.congr fun k => ?_))
  have hne : strOf w₃ ≠ tokOpen := fun h => absurd (hat.cases_run.1.mp h) (by decide)
  simp [loopTail, hne]

/-- A statement with a block: the block is read, and the loop goes on behind it. -/
theorem block_goes {ts' : List CStr} (stack : Nat → Locals) (res : Option EntId) (hs : st.tbl = σ.tbl)
    (hw : w.last = σ.c) (hr : S.rest st.tok = n :: ts) (hprev : ∀ p ∈ prev, p < st.tbl.entries)
    (head : Head S.fname σ n vs T)
    (hon : onward n ts = vs ++ tokOpen :: ts') :
    ∃ w₃ st₃ res', (res' = if prev = none then some st.tbl.entries else res) ∧
      StmtRead σ.c prev n vs T st st₃ ∧ w₃.last = σ.c ∧ S.rest st₃.tok = ts' ∧
      Goes .fuel (fun k => parseLoop S stack k w prev res) st
        (fun k => parseLoop S stack k (stack st₃.calls).w none (stack st₃.calls).result >>= fun sub => do
          setEntry st.tbl.entries ({ · with sub := sub })
          parseLoop S stack k w₃ (some st.tbl.entries) res') { st₃ with calls := st₃.calls + 1 } := by
  obtain ⟨w₂, st₂, w₃, st₃, res', hres, hloop, hat, hread, hsettles, -⟩ :=
    stmt_run stack prev res hs hw hr hprev head hon
  obtain ⟨tok, htok, hshows⟩ := hat.eq
  cases htok
  refine ⟨w₃, st₃, res', hres, hread, hshows.last, rfl, ?_⟩
  refine .succ (parseLoop_zero w st) hloop
    (.bind (hsettles _ (values_end hat (.inl rfl))) (.congr fun k => ?_))
  have heq : strOf w₃ = tokOpen := hat.cases_run.1.mpr rfl
  simp only [loopTail, heq, if_true]
  rfl

theorem runs_leaf {ts' : List CStr} (head : Head S.fname σ n vs T)
    (hon : onward n ts = vs ++ tokSemi :: ts') (ih : Runs S stack { σ with tbl := T } f ts' rest σ') :
    Runs S stack σ (.leaf (stored σ.c n) (vs.map (stored σ.c)) f) (n :: ts) rest σ' := by
  intro st w prev res hs hc hw hr hprev
  obtain ⟨w₃, st₃, res', hres, hread, hw₃, hr₃, hgoes⟩ :=
    leaf_goes stack res hs hw hr hprev head hon
  have hlo : st₃.tbl.entries = st.tbl.entries + 1 := hread.tbl ▸ hread.entries
  obtain ⟨st', hrun, hblock⟩ := ih st₃ w₃ (some st.tbl.entries) res' hread.tbl (hread.calls.trans hc)
    hw₃ hr₃ (by rw [hlo]; exact lt_prev)
  refine ⟨st', ?_, ?_⟩
  · rw [show (if prev = none ∧ Forest.leaf (stored σ.c n) (vs.map (stored σ.c)) f ≠ .nil then
      some st.tbl.entries else res) = res' by rw [hres]; simp]
    exact hgoes.settles hrun
  have hmem : st'.mem st.tbl.entries =
      { st₃.mem st.tbl.entries with next := f.link (st.tbl.entries + 1) } := by
    rw [hblock.frame _ (by omega), relink_self, hlo]
    exact linked_entry hread.next
  have hpre : T.strings <+: st'.tbl.strings := hread.tbl ▸ hblock.strings
  refine ⟨hblock.tbl, hblock.calls, hblock.rest, ?_, hread.strings.trans hpre, ?_, fun i hi => ?_⟩
  · rw [hblock.entries, hlo, Forest.size]; omega
  · rw [Holds, hmem]
    have his := hread.is.mono hpre
    exact ⟨⟨his.name, his.values⟩, rfl, hread.sub, hlo ▸ hblock.holds⟩
  · rw [if_neg (by simp), hblock.frame i (by omega), relink_other _ hi.ne, ite_self]
    exact hread.frame i hi

theorem runs_block {ts₁ ts₂ : List CStr} {σ₁ : Scan} (head : Head S.fname σ n vs T)
    (hon : onward n ts = vs ++ tokOpen :: ts₁) (ihs : Runs S stack (σ.enter stack T) sub ts₁ ts₂ σ₁)
    (ih : Runs S stack { σ₁ with c := σ.c } f ts₂ rest σ') :
    Runs S stack σ (.block (stored σ.c n) (vs.map (stored σ.c)) sub f) (n :: ts) rest σ' := by
  intro st w prev res hs hc hw hr hprev
  obtain ⟨w₃, st₃, res', hres, hread, hw₃, hr₃, hgoes⟩ :=
    block_goes stack res hs hw hr hprev head hon
  have hlo : st₃.tbl.entries = st.tbl.entries + 1 := hread.tbl ▸ hread.entries
  -- the call for the block
  let st₄ : ParseState τ := { st₃ with calls := st₃.calls + 1 }
  have hcalls : st₃.calls = σ.calls := hread.calls.trans hc
  obtain ⟨st₅, hrun₅, hblock₅⟩ := ihs st₄ (stack st₃.calls).w none (stack st₃.calls).result hread.tbl
    (by rw [Scan.enter, ← hcalls]) (by rw [Scan.enter, hcalls]) hr₃ (by simp)
  obtain ⟨p, hp⟩ : ∃ p, p = if (none : Option EntId) = none ∧ sub ≠ .nil then some st₄.tbl.entries
    else (stack st₃.calls).result := ⟨_, rfl⟩
  rw [← hp] at hrun₅
  let st₆ := st₅.setEntry st.tbl.entries ({ · with sub := p })
  have hlo₆ : st₆.tbl.entries = st.tbl.entries + 1 + sub.size := by
    rw [← hlo]; exact hblock₅.entries
  have hlt : st.tbl.entries + 1 ≤ st₆.tbl.entries := hlo₆ ▸ Nat.le_add_right _ _
  -- what follows it
  obtain ⟨st', hrun, hblock⟩ := ih st₆ w₃ (some st.tbl.entries) res' hblock₅.tbl hblock₅.calls
    hw₃ hblock₅.rest (fun q hq => lt_of_lt_of_le (lt_prev q hq) hlt)
  refine ⟨st', ?_, ?_⟩
  · rw [show (if prev = none ∧ Forest.block (stored σ.c n) (vs.map (stored σ.c)) sub f ≠ .nil then
      some st.tbl.entries else res) = res' by rw [hres]; simp]
    exact hgoes.settles (hrun₅.bind (hrun.congr fun _ => rfl))
  have hmem₅ : ∀ i, i < st.tbl.entries + 1 → st₅.mem i = st₃.mem i := fun i hi => by
    rw [hblock₅.frame i (by show i < st₃.tbl.entries; omega), relink_none, ite_self]
  have hmem : st'.mem st.tbl.entries = { st₃.mem st.tbl.entries with
      sub := p, next := f.link (st.tbl.entries + 1 + sub.size) } := by
    have h6 : st₆.mem st.tbl.entries = { st₃.mem st.tbl.entries with sub := p } := by
      simp only [st₆, ParseState.setEntry, Function.update_self, hmem₅ _ (Nat.lt_succ_self _)]
    rw [hblock.frame _ (by omega), relink_self, hlo₆]
    rw [linked_entry (by rw [h6]; exact hread.next), h6]
  have hframe : ∀ i, i < st₆.tbl.entries → i ≠ st.tbl.entries → st'.mem i = st₅.mem i := fun i hi hne => by
    rw [hblock.frame i hi, relink_other _ hne, ite_self]
    simp only [st₆, ParseState.setEntry, Function.update_of_ne hne]
  have hpre₅ : T.strings <+: st₅.tbl.strings := hread.tbl ▸ hblock₅.strings
  have hpre : T.strings <+: st'.tbl.strings := hpre₅.trans hblock.strings
  refine ⟨hblock.tbl, hblock.calls, hblock.rest, ?_, hread.strings.trans hpre, ?_, fun i hi => ?_⟩
  · rw [hblock.entries, hlo₆, Forest.size]; omega
  · rw [Holds, hmem]
    have his := hread.is.mono hpre
    refine ⟨⟨his.name, his.values⟩, rfl, fun hsub => ?_, ?_, hlo₆ ▸ hblock.holds⟩
    · rw [hp, if_pos ⟨rfl, hsub⟩]
      exact congrArg some hlo
    · have hh : Holds st₅.tbl.strings st₅.mem (st.tbl.entries + 1) sub := hlo ▸ hblock₅.holds
      exact hh.frame hblock.strings fun i h₁ h₂ => hframe i (by omega) (by omega)
  · rw [if_neg (by simp), hframe i (by omega) hi.ne, hmem₅ i (by omega)]
    exact hread.frame i hi

/-- **A block that is read to its end.** -/
theorem block_run (h : Block S.fname stack σ f ts rest σ') : Runs S stack σ f ts rest σ' := by
  induction h with
  | eof σ => exact runs_nil σ (.inl ⟨rfl, rfl⟩)
  | close σ rest => exact runs_nil σ (.inr rfl)
  | leaf head _ ih => exact runs_leaf head (onward_append _ _ _ _) ih
  | block head _ _ ihs ih => exact runs_block head (onward_append _ _ _ _) ihs ih
  | lastLeaf head => exact runs_leaf head rfl (runs_nil _ (.inl ⟨rfl, rfl⟩))
  | lastBlock head =>
    exact runs_block head rfl (runs_nil _ (.inl ⟨rfl, rfl⟩)) (runs_nil _ (.inl ⟨rfl, rfl⟩))

/-! ## The parts of a run -/

/-- `σ` describes the state, and the loop is called there. -/
structure Enters (S : Source τ) (σ : Scan) (ts : List CStr) (st : ParseState τ) (w : Buf) (prev : Option EntId) :
    Prop where
  tbl : st.tbl = σ.tbl
  calls : st.calls = σ.calls
  last : w.last = σ.c
  rest : S.rest st.tok = ts
  prev : ∀ p ∈ prev, p < st.tbl.entries

section
variable {p : Option EntId} {st' : ParseState τ} {prev res : Option EntId} {st : ParseState τ} {w : Buf}

/-- Behind a leaf, a run is one of the forest behind it. -/
theorem leaf_rest {ts' : List CStr} (he : Enters S σ (n :: ts) st w prev) (head : Head S.fname σ n vs T)
    (hon : onward n ts = vs ++ tokSemi :: ts') (hb : Block S.fname stack { σ with tbl := T } f ts' rest σ')
    (hrun : Settles .fuel (fun k => parseLoop S stack k w prev res) st (.ok p st')) :
    ∃ w₃ st₃ res', Enters S { σ with tbl := T } ts' st₃ w₃ (some st.tbl.entries) ∧
      st₃.tbl.entries = st.tbl.entries + 1 ∧
      Settles .fuel (fun k => parseLoop S stack k w₃ (some st.tbl.entries) res') st₃ (.ok p st') := by
  obtain ⟨w₃, st₃, res', -, hread, hw₃, hr₃, hgoes⟩ := leaf_goes stack res he.tbl he.last he.rest he.prev head hon
  have hlo : st₃.tbl.entries = st.tbl.entries + 1 := hread.tbl ▸ hread.entries
  have hprev₃ : ∀ p ∈ some st.tbl.entries, p < st₃.tbl.entries := by rw [hlo]; exact lt_prev
  have hcalls : st₃.calls = σ.calls := hread.calls.trans he.calls
  obtain ⟨st'', hrun'', -⟩ := block_run hb st₃ w₃ (some st.tbl.entries) res' hread.tbl hcalls hw₃ hr₃ hprev₃
  cases hrun.unique (hgoes.settles hrun'')
  exact ⟨w₃, st₃, res', ⟨hread.tbl, hcalls, hw₃, hr₃, hprev₃⟩, hlo, hrun''⟩

/-- A run over a block: the call for the block, from `st₄` to `st₅`, and the run of the forest behind it. -/
theorem block_rest {ts₁ ts₂ : List CStr} {σ₁ : Scan} (he : Enters S σ (n :: ts) st w prev)
    (head : Head S.fname σ n vs T) (hon : onward n ts = vs ++ tokOpen :: ts₁)
    (hbs : Block S.fname stack (σ.enter stack T) sub ts₁ ts₂ σ₁)
    (hb : Block S.fname stack { σ₁ with c := σ.c } f ts₂ rest σ')
    (hrun : Settles .fuel (fun k => parseLoop S stack k w prev res) st (.ok p st')) :
    ∃ st₄ st₅ r w₃ res', Enters S (σ.enter stack T) ts₁ st₄ (stack σ.calls).w none ∧
      st₄.tbl.entries = st.tbl.entries + 1 ∧
      Settles .fuel (fun k => parseLoop S stack k (stack σ.calls).w none (stack σ.calls).result) st₄ (.ok r st₅) ∧
      r = (if sub ≠ .nil then some st₄.tbl.entries else (stack σ.calls).result) ∧
      Enters S { σ₁ with c := σ.c } ts₂ (st₅.setEntry st.tbl.entries ({ · with sub := r })) w₃
        (some st.tbl.entries) ∧
      st₅.tbl.entries = st.tbl.entries + 1 + sub.size ∧
      Settles .fuel (fun k => parseLoop S stack k w₃ (some st.tbl.entries) res')
        (st₅.setEntry st.tbl.entries ({ · with sub := r })) (.ok p st') ∧
      BlockRead S σ' f rest (some st.tbl.entries) (st₅.setEntry st.tbl.entries ({ · with sub := r })) st' := by
  obtain ⟨w₃, st₃, res', -, hread, hw₃, hr₃, hgoes⟩ := block_goes stack res he.tbl he.last he.rest he.prev head hon
  have hlo : st₃.tbl.entries = st.tbl.entries + 1 := hread.tbl ▸ hread.entries
  have hcalls : st₃.calls = σ.calls := hread.calls.trans he.calls
  rw [hcalls] at hgoes
  have he₄ : Enters S (σ.enter stack T) ts₁ { st₃ with calls := σ.calls + 1 } (stack σ.calls).w none :=
    ⟨hread.tbl, rfl, rfl, hr₃, by simp⟩
  obtain ⟨st₅, hrun₅, hblock₅⟩ := block_run hbs _ _ none (stack σ.calls).result he₄.tbl he₄.calls he₄.last he₄.rest
    he₄.prev
  have hlo₅ : st₅.tbl.entries = st.tbl.entries + 1 + sub.size := by
    rw [← hlo]
    exact hblock₅.entries
  simp only [true_and] at hrun₅
  have he₆ : ∀ r, Enters S { σ₁ with c := σ.c } ts₂ (st₅.setEntry st.tbl.entries ({ · with sub := r })) w₃
      (some st.tbl.entries) := fun r =>
    ⟨hblock₅.tbl, hblock₅.calls, hw₃, hblock₅.rest, fun q hq => lt_of_lt_of_le (lt_prev q hq) (by
      show st.tbl.entries + 1 ≤ st₅.tbl.entries
      omega)⟩
  obtain ⟨r, hr⟩ : ∃ r, r = if sub ≠ .nil then some st₃.tbl.entries else (stack σ.calls).result := ⟨_, rfl⟩
  rw [← hr] at hrun₅
  have he₆ := he₆ r
  obtain ⟨st'', hrun'', hblock⟩ := block_run hb _ w₃ (some st.tbl.entries) res' he₆.tbl he₆.calls he₆.last he₆.rest
    he₆.prev
  cases hrun.unique (hgoes.settles (hrun₅.bind (hrun''.congr fun _ => rfl)))
  exact ⟨_, st₅, r, w₃, res', he₄, hlo, hrun₅, hr, he₆, hlo₅, hrun'', hblock⟩

end

/-! ## Streams that are not read to their end -/

/-- `Q` holds of the loop from every state that `σ` describes. -/
def From (S : Source τ) (stack : Nat → Locals) (Q : (Nat → ParseM τ (Option EntId)) → ParseState τ → Prop)
    (σ : Scan) (ts : List CStr) : Prop :=
  ∀ (st : ParseState τ) (w : Buf) (prev res : Option EntId), st.tbl = σ.tbl → st.calls = σ.calls →
    w.last = σ.c → S.rest st.tok = ts → (∀ p ∈ prev, p < st.tbl.entries) →
    Q (fun k => parseLoop S stack k w prev res) st

/-- The run ends with a reported error. -/
def Fails {α : Type} (m : Nat → ParseM τ α) (st : ParseState τ) : Prop :=
  ∃ r st', Settles .fuel m st (.error (.report r) st')

/-- The run ends where the text of a report is taken for a format. -/
def Garbles {α : Type} (m : Nat → ParseM τ α) (st : ParseState τ) : Prop :=
  ∃ st', Settles .fuel m st (.error .format st')

/-- The run ends with a report, whatever becomes of that. -/
def Stops {α : Type} (m : Nat → ParseM τ α) (st : ParseState τ) : Prop :=
  ∃ (r : Report) (st' : ParseState τ), Settles .fuel m st (.error r.stop st')

/-- The run never ends. -/
def Hangs {α : Type} (m : Nat → ParseM τ α) (st : ParseState τ) : Prop := Starves .fuel m st

theorem stuck_run {ts : List CStr} (h : StuckHere S.fname σ ts) : From S stack Hangs σ ts := by
  intro st w prev res hs hc hw hr hprev
  cases h with
  | value rest head hsep =>
    obtain ⟨w₂, st₂, w₃, st₃, res', -, hloop, hat, -, -, hstarves⟩ :=
      stmt_run stack prev res hs hw hr hprev head (onward_append _ _ _ _)
    exact (hstarves (values_stuck hat hsep)).bind.succ (parseLoop_zero w st) hloop
  | name head hsep =>
    obtain ⟨w₂, st₂, w₃, st₃, res', -, hloop, hat, -, -, hstarves⟩ :=
      stmt_run stack prev res hs hw hr hprev head (show onward _ [] = [] ++ _ from rfl)
    exact (hstarves (values_stuck hat hsep)).bind.succ (parseLoop_zero w st) hloop

/-- The values of a statement that is being read. -/
theorem StmtRead.length (h : StmtRead c prev n vs T st st') :
    (st'.mem st.tbl.entries).values.length = vs.length := by
  simpa using h.is.values.length_eq

/-- The last word of a stream that ends in a statement: it is still to be added, and was added before if it is the
name. -/
theorem Head.last {σ : Scan} (head : Head S.fname σ n vs T) (hlast : IsValue (vs.getLastD n)) :
    ∃ init l T', Head S.fname σ n init T' ∧ IsValue l ∧ onward n vs = init ++ [l] ∧ ∃ s, word σ.c l = some s := by
  obtain ⟨T₁, hname, hvals⟩ := Option.bind_eq_some_iff.mp head.granted
  rcases List.eq_nil_or_concat vs with rfl | ⟨init, l, rfl⟩
  · obtain ⟨-, -, s, -, -, -, hs, -⟩ := addName_some hname
    exact ⟨[], n, T, head, hlast, rfl, s, hs⟩
  · rw [List.concat_eq_append, addValues_append] at hvals
    obtain ⟨T', hinit, hl⟩ := Option.bind_eq_some_iff.mp hvals
    rw [addValues_cons] at hl
    obtain ⟨T₂, hl, -⟩ := Option.bind_eq_some_iff.mp hl
    obtain ⟨s, hs, -⟩ := Option.bind_eq_some_iff.mp hl
    have hle := head.le
    rw [List.concat_eq_append, List.length_append] at hle
    refine ⟨init, l, T', ⟨head.name, fun v hv => head.plain v (by simp [hv]), by omega, ?_⟩,
      head.plain l (by simp), by simp [onward], s, hs⟩
    rw [hname]; exact hinit

theorem stops_run {ts : List CStr} (h : FailsHere S.fname σ ts) : From S stack Stops σ ts := by
  intro st w prev res hs hc hw hr hprev
  cases h with
  | name rest hn hadd =>
    obtain ⟨w₁, hat, hloop⟩ := loop_stmt stack w prev res hr hn
    rw [hw] at hat
    obtain ⟨r, st', hfail⟩ := head_refused prev res hat hprev
      (show (st.next S).tbl.addName σ.c S.fname _ = none by rw [← hs] at hadd; exact hadd)
    exact ⟨r, st', .of_succ (parseLoop_zero w st) fun k => (hloop k).trans (Exec.bind_stop hfail)⟩
  | value rest head hv hno =>
    obtain ⟨w₂, st₂, w₃, st₃, res', -, hloop, hat, hread, hsettles, -⟩ :=
      stmt_run stack prev res hs hw hr hprev head (onward_append _ _ _ _)
    obtain ⟨r, st', hfail⟩ := value_refused (e := st.tbl.entries) hat hv
      (hno.imp (fun hlen => by rw [hread.length, hlen]) fun hadd => by rw [hread.tbl]; exact hadd)
    exact ⟨r, st', (hsettles _ hfail).bind_error.succ (parseLoop_zero w st) hloop⟩
  | @eof n vs T head hlast =>
    obtain ⟨init, l, T', hinit, hl, hon, -⟩ := head.last hlast
    obtain ⟨w₂, st₂, w₃, st₃, res', -, hloop, hat, -, hsettles, -⟩ :=
      stmt_run stack prev res hs hw hr hprev hinit hon
    obtain ⟨r, st', hfail, -⟩ := values_eof (e := st.tbl.entries) (fun _ => True) trivial (fun _ _ _ _ _ => trivial)
      hat hl
    exact ⟨r, st', (hsettles _ hfail).bind_error.succ (parseLoop_zero w st) hloop⟩

/-- What becomes of the statement reached becomes of the stream. -/
theorem reaches_from {Q : (Nat → ParseM τ (Option EntId)) → ParseState τ → Prop} {ts' : List CStr}
    (hgoes : ∀ {m m' s s'}, Goes .fuel m s m' s' → Q m' s' → Q m s)
    (hbind : ∀ {m : Nat → ParseM τ (Option EntId)} {f : Nat → Option EntId → ParseM τ (Option EntId)} {s},
      Q m s → Q (fun k => m k >>= f k) s)
    (h : Reaches S.fname stack σ ts σ' ts') (hq : From S stack Q σ' ts') : From S stack Q σ ts := by
  induction h with
  | refl => exact hq
  | leaf head _ ih =>
    intro st w prev res hs hc hw hr hprev
    obtain ⟨w₃, st₃, res', -, hread, hw₃, hr₃, hg⟩ :=
      leaf_goes stack res hs hw hr hprev head (onward_append _ _ _ _)
    exact hgoes hg (ih hq st₃ w₃ _ _ hread.tbl (hread.calls.trans hc) hw₃ hr₃
      (by rw [hread.tbl, hread.entries]; exact lt_prev))
  | sub head _ ih =>
    intro st w prev res hs hc hw hr hprev
    obtain ⟨w₃, st₃, res', -, hread, hw₃, hr₃, hg⟩ :=
      block_goes stack res hs hw hr hprev head (onward_append _ _ _ _)
    have hcalls := hread.calls.trans hc
    refine hgoes hg (hbind (ih hq _ _ none _ hread.tbl ?_ ?_ hr₃ (by simp)))
    · rw [Scan.enter, ← hcalls]
    · rw [Scan.enter, hcalls]
  | block head hsub _ ih =>
    intro st w prev res hs hc hw hr hprev
    obtain ⟨w₃, st₃, res', -, hread, hw₃, hr₃, hg⟩ :=
      block_goes stack res hs hw hr hprev head (onward_append _ _ _ _)
    have hcalls := hread.calls.trans hc
    obtain ⟨st₅, hrun₅, hblock₅⟩ := block_run hsub { st₃ with calls := st₃.calls + 1 }
      (stack st₃.calls).w none (stack st₃.calls).result hread.tbl (by rw [Scan.enter, ← hcalls])
      (by rw [Scan.enter, hcalls]) hr₃ (by simp)
    have hg' : Goes .fuel (fun k => parseLoop S stack k w prev res) st
        (fun k => parseLoop S stack k w₃ (some st.tbl.entries) res')
        (st₅.setEntry st.tbl.entries ({ · with sub := _ })) := hg.trans (.bind hrun₅ (.congr fun _ => rfl))
    refine hgoes hg' (ih hq _ w₃ _ _ hblock₅.tbl hblock₅.calls hw₃ hblock₅.rest fun p hp => ?_)
    have hlo : st₃.tbl.entries = st.tbl.entries + 1 := hread.tbl ▸ hread.entries
    have hle : st₃.tbl.entries ≤ st₅.tbl.entries := hblock₅.entries ▸ Nat.le_add_right _ _
    exact lt_of_lt_of_le (lt_prev p hp) (hlo ▸ hle)

/-! ## `parse_sub` -/

/-- What `parse_sub` finds when it is called. -/
def ParseState.scan (stack : Nat → Locals) (st : ParseState τ) : Scan :=
  ⟨(stack st.calls).w.last, st.calls + 1, st.tbl⟩

/-- The stream is read to the end of its outermost block. -/
theorem parse_block (h : Block S.fname stack (st.scan stack) f (S.rest st.tok) rest σ') :
    ∃ p st', Settles .fuel (fun k => parseSub S stack k) st (.ok p st') ∧ S.rest st'.tok = rest ∧
      Holds st'.tbl.strings st'.mem st.tbl.entries f ∧ (f ≠ .nil → p = some st.tbl.entries) := by
  obtain ⟨st', hrun, hblock⟩ := block_run h { st with calls := st.calls + 1 } (stack st.calls).w none
    (stack st.calls).result rfl rfl rfl rfl (by simp)
  exact ⟨_, st', hrun.congr fun _ => rfl, hblock.rest, hblock.holds, fun hf => if_pos ⟨rfl, hf⟩⟩

theorem parse_stuck {ts : List CStr} (hr : Reaches S.fname stack (st.scan stack) (S.rest st.tok) σ' ts)
    (h : StuckHere S.fname σ' ts) : Hangs (fun k => parseSub S stack k) st := by
  have hfrom := reaches_from (Q := Hangs) (fun hg => hg.starves) (fun hm => hm.bind) hr (stuck_run h)
  exact (hfrom { st with calls := st.calls + 1 } (stack st.calls).w none (stack st.calls).result
    rfl rfl rfl rfl (by simp)).congr fun _ => rfl

theorem parse_stops {ts : List CStr} (hr : Reaches S.fname stack (st.scan stack) (S.rest st.tok) σ' ts)
    (h : FailsHere S.fname σ' ts) : Stops (fun k => parseSub S stack k) st := by
  have hfrom := reaches_from (Q := Stops) (fun hg ⟨r, st', hs⟩ => ⟨r, st', hg.settles hs⟩)
    (fun ⟨r, st', hs⟩ => ⟨r, st', hs.bind_error⟩) hr (stops_run h)
  obtain ⟨r, st', hs⟩ := hfrom { st with calls := st.calls + 1 } (stack st.calls).w none
    (stack st.calls).result rfl rfl rfl rfl (by simp)
  exact ⟨r, st', hs.congr fun _ => rfl⟩

/-- A run that returns. -/
def Returned {α : Type} (m : Nat → ParseM τ α) (st : ParseState τ) : Prop :=
  ∃ a st', Settles .fuel m st (.ok a st')

/-- Every stream ends in one of the three ways. -/
theorem parse_total (S : Source τ) (stack : Nat → Locals) (st : ParseState τ) :
    (∃ f rest σ', Block S.fname stack (st.scan stack) f (S.rest st.tok) rest σ') ∨
    (∃ σ' ts, Reaches S.fname stack (st.scan stack) (S.rest st.tok) σ' ts ∧ StuckHere S.fname σ' ts) ∨
    ∃ σ' ts, Reaches S.fname stack (st.scan stack) (S.rest st.tok) σ' ts ∧ FailsHere S.fname σ' ts := by
  rcases scan_total S.fname stack (st.scan stack) (S.rest st.tok) with h | ⟨σ', ts, hr, hs | hf⟩
  · exact .inl h
  · exact .inr (.inl ⟨σ', ts, hr, hs⟩)
  · exact .inr (.inr ⟨σ', ts, hr, hf⟩)

section
variable {α : Type} {m : Nat → ParseM τ α}

theorem Returned.not_fails (h : Returned m st) : ¬Fails m st := by
  intro ⟨r, st', hf⟩
  obtain ⟨a, st'', hr⟩ := h
  cases hr.unique hf

theorem Returned.not_stops (h : Returned m st) : ¬Stops m st := by
  intro ⟨r, st', hf⟩
  obtain ⟨a, st'', hr⟩ := h
  cases hr.unique hf

theorem Garbles.not_returned (h : Garbles m st) : ¬Returned m st := by
  intro ⟨a, st', hr⟩
  obtain ⟨st'', hg⟩ := h
  cases hr.unique hg

theorem Garbles.not_fails (h : Garbles m st) : ¬Fails m st := by
  intro ⟨r, st', hr⟩
  obtain ⟨st'', hg⟩ := h
  cases hr.unique hg

theorem Hangs.not_returned (h : Hangs m st) : ¬Returned m st := by
  intro ⟨a, st', hr⟩
  obtain ⟨st'', hs⟩ := Starves.not_settles h hr
  cases hs

theorem Hangs.not_fails (h : Hangs m st) : ¬Fails m st := by
  intro ⟨r, st', hr⟩
  obtain ⟨st'', hs⟩ := Starves.not_settles h hr
  cases hs

end

end
end Bootd
