import Mathlib.Data.List.Perm.Basic
import Bootd.L4Daemon.Step

/-!
# Whether a request gets its session

`host_session_add` counts after it has dropped the idle sessions and the
host's own, and before it a read request has ended the host's session already,
or a boot request has cloned its host. `Busy` says from the memory before the
packet, for the listed host it is charged to, whether the count will be at
`c_session_max` then.

* `request_gN`: the count when `host_session_add` compares it.
* `request_busy`: a request is refused exactly if it is `Busy`.
-/
namespace Bootd

open Bootd.Core

/-- Even without the sessions that a request for `h` drops, there are as many as
there may be. -/
def Busy (c : Conf) (os : Os) (w : World) (h : HostId) : Prop :=
  ∃ ps, Chain.Path w.next w.gHosts ps none ∧
    c.cSessionMax ≤ w.gNSessions - (w.replaced c os ps h).length

section
variable {c : Conf} {os : Os} {e : Ev} {w w₀ w₁ w₃ w' : World} {h t q : HostId} {s : SessId}
  {ps L : List HostId} {nl : Option Listener} {es : List (HostId × SessId)}

/-- The sessions of `w` that are dropped are those of `w₀` and the host's own. -/
theorem replaced_of_own (c : Conf) (os : Os) (hps : ps.Nodup) (hlive : w₀.SessionsLive ps)
    (hs : w.sessionOf h = some s) (h0 : w₀.sessionOf h = none)
    (hses : ∀ q ≠ h, w₀.sessionOf q = w.sessionOf q)
    (hl : ∀ t ses, w₀.live t = some ses → w.live t = some ses) :
    (w.replaced c os ps h).length = (w₀.replaced c os ps h).length + 1 := by
  have hidle0 : w₀.idle c os h = none := by rw [World.idle, h0]; rfl
  have hown0 : w₀.replaced c os ps h = ps.filterMap (w₀.idle c os) := by
    rw [World.replaced, h0]
    split <;> exact List.append_nil _
  have hidle : ∀ q ∈ ps, q ≠ h → w.idle c os q = w₀.idle c os q := by
    intro q hq hne
    unfold World.idle
    rw [hses q hne]
    cases hqs : w.sessionOf q with
    | none => rfl
    | some t =>
      obtain ⟨ses, ht⟩ := hlive q hq t ((hses q hne).trans hqs)
      rw [Option.bind_some, Option.bind_some, ht, hl t ses ht]
  rw [hown0, World.replaced]
  by_cases hi : h ∈ ps ∧ w.idle c os h ≠ none
  · -- its own session has expired, and is dropped on the walk over the table
    rw [if_pos hi, List.append_nil]
    have hperm := List.perm_cons_erase hi.1
    have hrest : (ps.erase h).filterMap (w.idle c os) = (ps.erase h).filterMap (w₀.idle c os) :=
      List.filterMap_congr fun q hq =>
        hidle q (List.mem_of_mem_erase hq) fun e => hps.not_mem_erase (e ▸ hq)
    obtain ⟨x, hx⟩ := Option.ne_none_iff_exists'.mp hi.2
    rw [(hperm.filterMap _).length_eq, (hperm.filterMap _).length_eq, List.filterMap_cons, hx,
      List.filterMap_cons, hidle0, hrest, List.length_cons]
  · rw [if_neg hi, hs, List.length_append]
    have : ps.filterMap (w.idle c os) = ps.filterMap (w₀.idle c os) := by
      refine List.filterMap_congr fun q hq => ?_
      by_cases hqh : q = h
      · subst hqh
        rw [hidle0]
        exact not_not.mp fun hne => hi ⟨hq, hne⟩
      · exact hidle q hq hqh
    rw [this]; rfl

/-- Nothing that `World.replaced` looks at has changed. -/
theorem replaced_congr (hses : ∀ q ∈ h :: ps, w₀.sessionOf q = w.sessionOf q)
    (hl : w₀.sessions = w.sessions) : w₀.replaced c os ps h = w.replaced c os ps h := by
  have hidle : ∀ q ∈ h :: ps, w₀.idle c os q = w.idle c os q := by
    intro q hq
    unfold World.idle World.live
    rw [hses q hq, hl]
  unfold World.replaced
  rw [hidle h List.mem_cons_self, hses h List.mem_cons_self,
    List.filterMap_congr fun q hq => hidle q (List.mem_cons_of_mem _ hq)]

/-- The count that a read request is decided by. -/
theorem tftp_gN {frm loc : SockAddr} {l : Listener} {pkt : Pkt}
    (hpre : Prelude h w (.udp os l frm loc pkt) nl w₀)
    (hpath : Chain.Path w₀.next w₀.gHosts ps none) (hlive : w₀.SessionsLive ps)
    (he : Ends (w₀.replaced c os ps h) w₀ w₃) :
    Chain.Path w.next w.gHosts ps none ∧
      w₃.gNSessions = w.gNSessions - (w.replaced c os ps h).length := by
  have hsame := SameHosts.prelude hpre
  have hpath' : Chain.Path w.next w.gHosts ps none := by
    rw [← hsame.gHosts]
    exact hpath.congr fun a _ => (hsame.next a).symm
  refine ⟨hpath', ?_⟩
  have hgN := he.gN
  cases hpre with
  | tftp _ _ _ _ _ es w' nl w₀ he' hown hnl =>
    have hgN' := he'.gN
    have hnls : (∀ q, w₀.sessionOf q = w'.sessionOf q) ∧ w₀.sessions = w'.sessions ∧
        w₀.gNSessions = w'.gNSessions := by cases hnl <;> exact ⟨fun _ => rfl, rfl, rfl⟩
    rcases hown with ⟨-, rfl⟩ | ⟨s, hs, rfl⟩
    · obtain rfl := he'.eq_of_nil
      rw [replaced_congr (fun q _ => hnls.1 q) hnls.2.1] at hgN
      omega
    · have hother : ∀ q ≠ h, w₀.sessionOf q = w.sessionOf q := by
        intro q hq
        rw [hnls.1]
        rcases he'.sessionOf_or q with e | ⟨-, t, -, hm⟩
        · exact e
        · cases List.mem_singleton.mp hm
          exact absurd rfl hq
      have h0 : w₀.sessionOf h = none := by
        rw [hnls.1]; exact (he'.mem (List.mem_singleton.mpr rfl)).2.2.1
      have hl : ∀ t ses, w₀.live t = some ses → w.live t = some ses := by
        intro t ses ht
        refine he'.live_of ?_
        rwa [World.live, ← hnls.2.1]
      have := replaced_of_own c os hpath'.nodup hlive hs h0 hother hl
      rw [List.length_singleton] at hgN'
      omega

/-- A host with the session of another has expired when that has. -/
theorem idle_shared {p q : HostId} (hs : w₁.sessionOf p = w.sessionOf q)
    (hl : w₁.sessions = w.sessions) :
    w₁.idle c os p = (w.idle c os q).map fun x => (p, x.2) := by
  unfold World.idle World.live
  rw [hs, hl]
  cases w.sessionOf q with
  | none => rfl
  | some s =>
    simp only [Option.bind_some]
    cases Slots.get w.sessions s with
    | none => rfl
    | some ses => simp only [Option.bind_some]; split <;> rfl

/-- What the timeouts see of a table with a clone: the hosts there were are as
they were, and the clone has expired when its template has. -/
theorem clone_idle {eth : Ether} {b : Bool} {tmpl : Host} (hok : HostsOk w L) (ht : t ∈ L)
    (htm : w.hosts[t]? = some tmpl)
    (hadd : hostAddNew c os (cloneOf tmpl none (some eth) none) w = .ok (h, b) w₁) :
    (∀ q ∈ L, w₁.idle c os q = w.idle c os q) ∧
      w₁.idle c os h = (w.idle c os t).map (fun x => (h, x.2)) ∧ w₁.sessionOf h = w.sessionOf t := by
  obtain ⟨rfl, hf, -, host, hh, hses, -⟩ := clone_ok hok ht htm hadd
  obtain ⟨-, r, hLp, -⟩ := id hok.lasso
  have hsess : w₁.sessionOf w.hosts.length = w.sessionOf t := by
    rw [sessionOf_eq hh, hses, sessionOf_eq htm]
  refine ⟨fun q hq => ?_, idle_shared hsess hf.sessions, hsess⟩
  unfold World.idle World.live
  rw [hf.sessionOf (path_lt hLp q hq), hf.sessions]

/-- The clone starts with the session of its template; were that expired, it
would be ended twice. -/
theorem clone_fresh {eth : Ether} {b : Bool} {tmpl : Host} (hok : HostsOk w L) (ht : t ∈ L)
    (htm : w.hosts[t]? = some tmpl)
    (hadd : hostAddNew c os (cloneOf tmpl none (some eth) none) w = .ok (h, b) w₁)
    (hnd : ((w₁.replaced c os (if b then L ++ [h] else L) h).map Prod.snd).Nodup) :
    w.idle c os t = none := by
  obtain ⟨hold, hnew, hsess⟩ := clone_idle (c := c) hok ht htm hadd
  obtain ⟨rfl, -⟩ := clone_ok hok ht htm hadd
  obtain ⟨-, r, hLp, -⟩ := id hok.lasso
  cases hx : w.idle c os t with
  | none => rfl
  | some x =>
    obtain ⟨xt, s⟩ := x
    obtain ⟨hxt, hs, -⟩ := idle_some hx
    have hxt : xt = t := hxt
    subst hxt
    have hmem : xt ∈ if b then L ++ [w.hosts.length] else L := by
      split
      · exact List.mem_append_left _ ht
      · exact ht
    have h1 : (xt, s) ∈ w₁.replaced c os (if b then L ++ [w.hosts.length] else L) w.hosts.length :=
      List.mem_append_left _ (List.mem_filterMap.mpr ⟨xt, hmem, (hold xt ht).trans hx⟩)
    have h2 : (w.hosts.length, s) ∈
        w₁.replaced c os (if b then L ++ [w.hosts.length] else L) w.hosts.length := by
      by_cases hin : w.hosts.length ∈ if b then L ++ [w.hosts.length] else L
      · exact List.mem_append_left _ (List.mem_filterMap.mpr ⟨_, hin, by rw [hnew, hx]; rfl⟩)
      · refine List.mem_append_right _ ?_
        rw [if_neg fun hc => hin hc.1, hsess, hs]
        exact List.mem_singleton.mpr rfl
    have h3 : xt = w.hosts.length := congrArg Prod.fst (List.inj_on_of_nodup_map hnd h1 h2 rfl)
    exact absurd (path_lt hLp xt ht) (by rw [h3]; exact Nat.lt_irrefl _)

/-- The sessions that end for a clone are those that would end for its
template. -/
theorem clone_replaced {eth : Ether} {b : Bool} {tmpl : Host} (hok : HostsOk w L) (ht : t ∈ L)
    (htm : w.hosts[t]? = some tmpl)
    (hadd : hostAddNew c os (cloneOf tmpl none (some eth) none) w = .ok (h, b) w₁)
    (hfresh : w.idle c os t = none) :
    (w₁.replaced c os (if b then L ++ [h] else L) h).map Prod.snd =
      (w.replaced c os L t).map Prod.snd := by
  obtain ⟨hold, hnew, hsess⟩ := clone_idle (c := c) hok ht htm hadd
  rw [hfresh] at hnew
  have hfm : (if b then L ++ [h] else L).filterMap (w₁.idle c os) = L.filterMap (w.idle c os) := by
    rw [← List.filterMap_congr hold]
    split
    · rw [List.filterMap_append, List.filterMap_cons, hnew]
      exact List.append_nil _
    · rfl
  rw [World.replaced, World.replaced, hfm, if_neg fun hc => hc.2 hnew, if_neg fun hc => hc.2 hfresh,
    hsess, List.map_append, List.map_append]
  cases w.sessionOf t <;> rfl

/-- The count that the boot request of a clone is decided by. -/
theorem clone_gN {eth : Ether} {b : Bool} {tmpl : Host} (hok : HostsOk w L) (ht : t ∈ L)
    (htm : w.hosts[t]? = some tmpl)
    (hadd : hostAddNew c os (cloneOf tmpl none (some eth) none) w = .ok (h, b) w₁)
    (hpath : Chain.Path w₁.next w₁.gHosts ps none)
    (hnd : ((w₁.replaced c os ps h).map Prod.snd).Nodup) :
    Chain.Path w.next w.gHosts L none ∧
      (w₁.replaced c os ps h).length = (w.replaced c os L t).length := by
  obtain ⟨-, -, hok', -, -, -, -, -, hback⟩ := clone_ok hok ht htm hadd
  obtain rfl := hok'.lasso.eq_of_path hpath
  refine ⟨hback _ hpath, ?_⟩
  have hfresh := clone_fresh hok ht htm hadd hnd
  have := congrArg List.length (clone_replaced (c := c) hok ht htm hadd hfresh)
  rwa [List.length_map, List.length_map] at this

/-- The count that `host_session_add` compares, from the memory before the
packet and the host that the packet is charged to. -/
theorem request_gN (hok : HostsOk w L) (ha : Admitted c w e t h w₁) (hpre : Prelude h w₁ e nl w₀)
    (hpath : Chain.Path w₀.next w₀.gHosts ps none) (hlive : w₀.SessionsLive ps)
    (he : Ends (w₀.replaced c e.os ps h) w₀ w₃) :
    ∃ qs, Chain.Path w.next w.gHosts qs none ∧
      w₃.gNSessions = w.gNSessions - (w.replaced c e.os qs t).length := by
  cases e with
  | udp os l frm loc pkt =>
    cases ha
    exact ⟨ps, tftp_gN hpre hpath hlive he⟩
  | link os l p =>
    cases hpre
    cases ha with
    | known _ _ hhost hcl => exact ⟨ps, hpath, he.gN⟩
    | cloned _ _ _ _ tmpl _ b _ hhost hcl htm hadd =>
      have hr : w₁.nextSid.replaced c (Ev.link os l p).os ps h = w₁.replaced c os ps h :=
        replaced_congr (fun q _ => rfl) rfl
      have hnd := he.nodup
      have hgN := he.gN
      obtain ⟨-, hf, -⟩ := clone_ok hok (Ev.host_mem hok hhost) htm hadd
      rw [hr] at hnd hgN
      obtain ⟨hpathL, hlen⟩ := clone_gN hok (Ev.host_mem hok hhost) htm hadd hpath hnd
      refine ⟨L, hpathL, ?_⟩
      rw [hgN, hlen]
      exact congrArg (· - _) hf.gN

/-- **A request is refused exactly if it is busy.** -/
theorem request_busy (hok : HostsOk w L) (ha : Admitted c w e t h w₁) (hpre : Prelude h w₁ e nl w₀)
    (hpath : Chain.Path w₀.next w₀.gHosts ps none) (hlive : w₀.SessionsLive ps)
    (he : Ends (w₀.replaced c e.os ps h) w₀ w₃) :
    Busy c e.os w t ↔ c.cSessionMax ≤ w₃.gNSessions := by
  obtain ⟨qs, hqs, hgN⟩ := request_gN hok ha hpre hpath hlive he
  constructor
  · intro ⟨rs, hrs, hmax⟩
    rw [hrs.unique hqs] at hmax
    omega
  · exact fun hmax => ⟨qs, hqs, by omega⟩

end
end Bootd
