import Bootd.Bugs.ZeroMask
import Bootd.Config.FileTexts
import Bootd.Config.PrintParse
import Bootd.L3Protocol.Bootparam

/-!
# A reply without a server

`server` is an optional statement of a `file` block, and nothing stands in for it when
it is missing: `i_eval_host_files` leaves NULL in the record (src/conf.c:338),
`host_file_add` has a default for name and path only (src/host.c:149-171), and
`bootparamproc_getfile_1_svc` copies the pointer into the reply
(src/bootparam.c:118). The encoder of the RPC library follows it.

Counterexample: `host a { ether 2:0:0:0:0:3; file /b/k; }`, and a request for `k`
(`reply_without_server`).

`reply_complete_iff`: in every state of every run, a reply is complete if and only if
the block of the file that it is about has a `server` statement.
-/
namespace Bootd

open Bootd.Core
open Bootd.Core.Fuel

/-- What `xdr_bp_getfile_res` can encode. mirrors src/bootparam_prot.x:64-87 -/
def GetfileRes.Encodable (res : GetfileRes) : Prop :=
  (∃ n, res.serverName = some n ∧ n.length ≤ 255) ∧ ∃ p, res.serverPath = some p ∧ p.length ≤ 1024

/-- The reply to a request for `id` from `name` is about this file. -/
def AboutFile (w : World) (name id : CStr) (file : File) : Prop :=
  ∃ p host, utilName2host w name = .ok (some p) ∧ w.hosts[p]? = some host ∧
    host.service &&& serviceBootparm ≠ 0 ∧ utilName2file host.files serviceBootparm (some id) 0 = some file

/-- No host was added yet. -/
def Setup.NoHosts (st : Setup) : Prop := st.w.hosts = [] ∧ st.w.gHosts = none ∧ st.accepted = []

section
variable {τ : Type} {S : Source τ} {stack : Nat → Locals} {mem : EntId → Entry} {tok : τ} {f : Forest}
  {pst : ParseState τ} {x : ConfEntry} {file : File} {res : GetfileRes} {st : Setup} {es : List ConfEntry}
  {k : Keyword} {n : CStr}

theorem statement_short (hshort : ∀ t ∈ x.texts, t.length < parseStringMax) (hn : statement k x.sub = some n) :
    n.length < parseStringMax := by
  obtain ⟨e, he, rfl⟩ := Option.map_eq_some_iff.mp hn
  have he := (mem_named.mp (List.mem_of_head? he)).1
  unfold ConfEntry.value
  cases hv : e.values with
  | nil => decide
  | cons v vs =>
    refine hshort v (List.mem_append_right _ (List.mem_flatMap.mpr ⟨e, he, ?_⟩))
    rw [hv]
    exact List.mem_cons_self

theorem statement_none : statement k es = none ↔ named k es = [] := by
  unfold statement
  rw [Option.map_eq_none_iff, List.head?_eq_none_iff]

/-- A record with a path, from a block that was parsed. -/
theorem record_encodable_iff {addr : List UInt8} (hread : file.ReadFrom x) (hpath : file.path ≠ none)
    (hshort : ∀ t ∈ x.texts, t.length < parseStringMax) :
    (⟨file.server, file.path, addr⟩ : GetfileRes).Encodable ↔ named kwServer x.sub ≠ [] := by
  unfold GetfileRes.Encodable
  simp only
  rw [hread.server]
  constructor
  · rintro ⟨⟨n, hn, -⟩, -⟩ hnil
    rw [statement_none.mpr hnil] at hn
    cases hn
  · intro hsome
    obtain ⟨n, hn⟩ := Option.ne_none_iff_exists'.mp (mt statement_none.mp hsome)
    obtain ⟨p, hp⟩ := Option.ne_none_iff_exists'.mp hpath
    have hlen := statement_short hshort hn
    have hplen := hshort p (hread.path p hp)
    unfold parseStringMax at hlen hplen
    exact ⟨⟨n, hn, by omega⟩, p, hp, by omega⟩

theorem noHosts_table (h : st.NoHosts) : TableInv ⟨st.w, st.accepted⟩ := by
  obtain ⟨-, hg, ha⟩ := h
  rw [ha]
  exact ⟨hg, (fun _ hp => nomatch hp), .nil⟩

theorem noHosts_files {P : File → Prop} (h : st.NoHosts) : st.w.FilesAll P := by
  intro p g hg
  rw [h.1] at hg
  cases hg

/-- What a stream with a forest at its start brings into the tables. -/
theorem block_loads {rest : List CStr} {σ' : Scan}
    (h : Block S.fname stack (ParseState.scan stack ⟨tok, .empty, mem, 0⟩) f (S.rest tok) rest σ') :
    ∃ pst, Loads S stack mem tok f pst := by
  obtain ⟨p, pst, hrun, -, hholds, hp⟩ := parse_block h
  obtain ⟨N, hN⟩ := hrun.enough
  exact ⟨pst, ⟨N, p, hN N (Nat.le_refl N), hp⟩, hholds⟩

end

/-- **When a reply is complete.** -/
theorem reply_complete_iff {τ : Type} (S : Source τ) (stack : Nat → Locals) (mem : EntId → Entry) (tok : τ)
    (f : Forest) (pst : ParseState τ) (env : SetupEnv) (st : Setup) (s : EvalState) (c : Conf) (σ σ' : Sys)
    (es : List Ev) (name id : CStr) (port : Nat) (res : GetfileRes) (hload : Loads S stack mem tok f pst)
    (hst : st.NoHosts) (hconf : confFile env (f.entries 0) (.start st) = .ok () s)
    (hhosts : σ.w.hosts = s.setup.w.hosts) (hhead : σ.w.gHosts = s.setup.w.gHosts) (hrun : (daemon c).Run σ es σ')
    (hr : bootparamprocGetfile σ'.w name id port = .ok (some res)) :
    ∃ file x, AboutFile σ'.w name id file ∧ HostFile (f.entries 0) x ∧ file.ReadFrom x ∧
      (res.Encodable ↔ named kwServer x.sub ≠ []) := by
  obtain ⟨hi, hall⟩ := confFile_read (entries_distinct 0 f) (fun e _ => start_fresh st e) (noHosts_table hst)
    (noHosts_files hst) hconf
  have hsame : SameHosts s.setup.w σ.w := .of_eq hhead hhosts
  have hmaskless : Maskless (FromBlock (f.entries 0)) := fun g m ⟨x, hx, hread⟩ => ⟨x, hx, hread.path, hread.server⟩
  obtain ⟨⟨L, hok⟩, hall⟩ := daemon_files hmaskless hrun ⟨_, hsame.hostsOk hi.hostsOk⟩ (hsame.filesAll hall)
  obtain ⟨p, host, file, l, hp, hh, hsvc, hfile, -, rfl⟩ := getfile_ok hr
  have hmem := (utilName2file_some hfile).1
  have hpath := ((hok.complete p (hostFind_mem hok hp) host hh).files file hmem).1
  obtain ⟨x, hx, hread⟩ := hall p host hh file hmem
  exact ⟨file, x, ⟨p, host, hp, hh, hsvc, hfile⟩, hx, hread, record_encodable_iff hread hpath (block_texts hload hx)⟩

/-! ## A diskless client -/

/-- `host a { ether 2:0:0:0:0:3; file }`, with the given statement for the file. -/
def clientForest (file : Forest) : Forest :=
  .block (cstr "host") [cstr "a"] (.leaf (cstr "ether") [cstr "2:0:0:0:0:3"] file) .nil

/-- `file /b/k;` -/
def plainStatement : Forest := .leaf (cstr "file") [cstr "/b/k"] .nil

/-- `file /b/k { server s; }` -/
def serverStatement : Forest :=
  .block (cstr "file") [cstr "/b/k"] (.leaf (cstr "server") [cstr "s"] .nil) .nil

/-- A file that was printed is loaded. -/
theorem print_loads (f : Forest) (hf : f.Printable) (hroom : f.store (cstr "bootd.conf") .empty ≠ none)
    (h0 : ∀ tok ∈ f.print ++ [tokClose], 0 ∉ tok) : ∃ pst, Loads (listSource (cstr "bootd.conf"))
      (fun _ => plainLocals) (fun _ => .zero) ⟨f.print ++ [tokClose], h0⟩ f pst := by
  obtain ⟨T, hT⟩ := Option.ne_none_iff_exists'.mp hroom
  exact block_loads (print_block (fun _ => plainLocals) hf _ T hT [])

theorem plain_noHosts : plainSetup.NoHosts := ⟨rfl, rfl, rfl⟩

/-- The reply names the server that the block names. -/
theorem reply_with_server : ∃ s res, confFile macEnv ((clientForest serverStatement).entries 0) (.start plainSetup) =
      .ok () s ∧
    bootparamprocGetfile s.setup.w (cstr "a") (cstr "k") 3 = .ok (some res) ∧ res.Encodable := by
  obtain ⟨pst, hload⟩ := print_loads (clientForest serverStatement) (by decide) (by decide) (by decide)
  have hconf : ∃ s, confFile macEnv ((clientForest serverStatement).entries 0) (.start plainSetup) = .ok () s ∧
      bootparamprocGetfile s.setup.w (cstr "a") (cstr "k") 3 =
        .ok (some ⟨some (cstr "s"), some (cstr "/b/k"), ipBytes 0⟩) := ⟨_, rfl, rfl⟩
  obtain ⟨s, hconf, hr⟩ := hconf
  obtain ⟨file, x, -, ⟨b, hb, hx⟩, -, hiff⟩ := reply_complete_iff _ _ _ _ _ pst macEnv plainSetup s plainConf
    ⟨s.setup.w, []⟩ ⟨s.setup.w, []⟩ [] (cstr "a") (cstr "k") 3 _ hload plain_noHosts hconf rfl rfl (.nil _) hr
  refine ⟨s, _, hconf, hr, hiff.mpr ?_⟩
  rw [List.mem_singleton.mp hb] at hx
  rw [List.mem_singleton.mp hx]
  exact fun hnil => absurd hnil (by decide)

/-- **Counterexample**: the block has no `server` statement. -/
theorem reply_without_server : ¬∀ (τ : Type) (S : Source τ) (stack : Nat → Locals) (mem : EntId → Entry) (tok : τ)
    (f : Forest) (pst : ParseState τ) (env : SetupEnv) (st : Setup) (s : EvalState) (c : Conf) (σ σ' : Sys)
    (es : List Ev) (name id : CStr) (port : Nat) (res : GetfileRes), Loads S stack mem tok f pst → st.NoHosts →
    confFile env (f.entries 0) (.start st) = .ok () s → σ.w.hosts = s.setup.w.hosts →
    σ.w.gHosts = s.setup.w.gHosts → (daemon c).Run σ es σ' →
    bootparamprocGetfile σ'.w name id port = .ok (some res) → res.Encodable := by
  intro hall
  obtain ⟨pst, hload⟩ := print_loads (clientForest plainStatement) (by decide) (by decide) (by decide)
  have hconf : ∃ s, confFile macEnv ((clientForest plainStatement).entries 0) (.start plainSetup) = .ok () s ∧
      bootparamprocGetfile s.setup.w (cstr "a") (cstr "k") 3 =
        .ok (some ⟨none, some (cstr "/b/k"), ipBytes 0⟩) := ⟨_, rfl, rfl⟩
  obtain ⟨s, hconf, hr⟩ := hconf
  obtain ⟨⟨n, hn, -⟩, -⟩ := hall _ _ _ _ _ _ pst macEnv plainSetup s plainConf
    ⟨s.setup.w, []⟩ ⟨s.setup.w, []⟩ [] (cstr "a") (cstr "k") 3 _ hload plain_noHosts hconf rfl rfl (.nil _) hr
  cases hn

end Bootd
