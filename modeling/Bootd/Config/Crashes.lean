import Bootd.Core.Stops
import Bootd.Config.Meaning
import Bootd.L4Daemon.HostTable
import Bootd.L4Daemon.Returns

/-!
# Where the evaluation can crash

A configuration is refused with a message, be it that of a report or of a `LOG_ERR`
(`Fault.exit`), or the program crashes. Apart from messages that cannot be printed,
there are few places for a crash as long as the host table is in order: a file
record without a path, and three arrays for text that the configuration or the
resolver supplies.

`Looks`: a part that cannot crash and leaves the setup alone. `Upkeep`: one that
cannot crash and leaves the host table in order.

* `UpperOverrun`, `ArraysHold`: the arrays `b`, `name` and `files`.
* `addHost_error`, `hostFileAdd_error`, `ether_hits`: the places.
* `Upkeep.head`: the evaluation up to the hosts.
-/
namespace Bootd

open Bootd.Core
open Bootd.Core.Stops

/-- The program ends without a message. -/
def Fault.Crash (f : Fault) : Prop := f ≠ .exit

/-- A call crashes. -/
def Refusal.Crash : Refusal → Prop
  | .reported _ => False
  | .fault f => f.Crash

section
variable {w : World} {L : List HostId} {c : Conf} {os : Os} {h : Host} {name : CStr} {f : Fault}

/-! ## The host table -/

theorem TableInv.alloc (hi : TableInv ⟨w, L⟩) (h : Host) : TableInv ⟨w.allocHost h, L⟩ := by
  have hlt := path_lt hi.chain
  refine ⟨hi.chain.congr fun a ha => next_allocHost h (hlt a ha), fun p hp g hg => ?_, ?_⟩
  · rw [allocHost_old h (hlt p hp)] at hg
    exact hi.complete p hp g hg
  · have hf := allocHost_frame w h
    refine hi.names.imp_of_mem fun {a b} ha hb hab x y hx hy => ?_
    rw [hf.nameOf (hlt a ha)] at hx
    rw [hf.nameOf (hlt b hb)] at hy
    exact hab x y hx hy

theorem TableInv.hostsOk (hi : TableInv ⟨w, L⟩) : HostsOk w L := ⟨.of_path hi.chain, hi.complete⟩

theorem hostByName_ok (hi : TableInv ⟨w, L⟩) (name : CStr) : ∃ o, hostByName w name = .ok o := by
  obtain ⟨o, ho⟩ := hi.lookups.1 name
  unfold hostByName
  rw [ho]
  cases o with
  | none => exact ⟨none, rfl⟩
  | some p => exact ⟨_, rfl⟩

theorem name2ip_error (hi : TableInv ⟨w, L⟩) (h : utilName2ip c os w name = .error f) : ¬f.Crash := by
  obtain ⟨o, ho⟩ := hostByName_ok hi name
  have hexit : f = .exit := by
    unfold utilName2ip at h
    rw [ho] at h
    simp only [bind, Except.bind] at h
    split at h
    · cases h
    · split at h
      · cases h
      · split at h
        · exact (Except.error.inj h).symm
        · split at h
          · cases h
          · exact (Except.error.inj h).symm
  exact fun hcrash => hcrash hexit

/-- The copy that `util_name2ether` makes of the name does not fit into `b`. -/
def UpperOverrun (c : Conf) (os : Os) (w : World) (name : CStr) : Prop :=
  UpperTried c os w name ∧ upperSize ≤ name.length

theorem name2ether_error (hi : TableInv ⟨w, L⟩) :
    (∃ f, utilName2ether c os w name = .error f ∧ f.Crash) ↔ UpperOverrun c os w name := by
  obtain ⟨o, ho⟩ := hostByName_ok hi name
  constructor
  · rintro ⟨f, hf, hcrash⟩
    unfold utilName2ether at hf
    rw [ho] at hf
    simp only [bind, Except.bind] at hf
    cases haton : c.etherAton name with
    | some eth =>
      rw [haton] at hf
      cases hf
    | none =>
      cases hfind : o.filter fun h => utilEtherValid h.eth with
      | some h =>
        simp only [haton, hfind] at hf
        cases hf
      | none =>
        cases hres : c.cResolveEther with
        | false =>
          simp only [haton, hfind, hres, if_true] at hf
          cases hf
        | true =>
          cases hton : os.etherHostton name with
          | some eth =>
            simp [haton, hfind, hres, hton] at hf
          | none =>
            refine ⟨⟨haton, ⟨o, ho, hfind⟩, hres, hton⟩, ?_⟩
            by_contra hlen
            simp only [haton, hfind, hres, hton, if_neg hlen, etherHosttonUpper] at hf
            cases hup : os.etherHostton (name.map upper) with
            | some eth => simp [hup] at hf
            | none =>
              simp only [hup] at hf
              exact hcrash (by simpa using hf.symm)
  · rintro ⟨htried, hlen⟩
    exact ⟨.overrun, by rw [name2ether_tried htried, if_pos hlen], fun h => nomatch h⟩

/-- An address is no name. -/
theorem name2ether_aton {eth : Ether} (h : c.etherAton name = some eth) :
    utilName2ether c os w name = .ok (some eth) := by
  unfold utilName2ether
  rw [h]

/-- A host that a lookup finds has a name. -/
theorem found_name (hi : TableInv ⟨w, L⟩) {q : Host → Bool} {p : HostId}
    (hfind : hostFind w (fun g => .ok (q g)) = .ok (some p)) : ∃ n, hostNameOf w p = .ok n := by
  have htest : ∀ a ∈ L, ∀ g, w.hosts[a]? = some g → (.ok (q g) : Except Fault Bool) = .ok ((w.hosts[a]?).any q) :=
    fun a _ g hg => by rw [hg]; rfl
  rw [hostFind_table hi.chain htest] at hfind
  have hp : p ∈ L := List.mem_of_find?_eq_some (Except.ok.inj hfind)
  obtain ⟨n, hn⟩ := hi.chain.mem_next hp
  obtain ⟨g, hg, -⟩ := Option.map_eq_some_iff.mp hn
  obtain ⟨m, hm⟩ := Option.ne_none_iff_exists'.mp (hi.complete p hp g hg).name
  exact ⟨m, by rw [hostNameOf, hg, Option.bind_some, hm]⟩

theorem ether2name_error (hi : TableInv ⟨w, L⟩) {eth : Ether} :
    (∃ f, utilEther2name c os w eth = .error f ∧ f.Crash) ↔
      utilEther2host w eth = .ok none ∧ ¬NameFits c os eth := by
  obtain ⟨o, ho⟩ := hi.lookups.2.1 eth
  rw [show utilEther2host w eth = .ok o from ho]
  cases o with
  | none =>
    rw [utilEther2name_unknown ho]
    by_cases hfits : NameFits c os eth
    · simp [hfits]
    · simp [hfits, Fault.Crash]
  | some p =>
    obtain ⟨n, hn⟩ : ∃ n, utilEther2name c os w eth = .ok n := by
      unfold utilEther2name
      rw [show utilEther2host w eth = .ok (some p) from ho]
      exact found_name hi ho
    simp [hn]

theorem ip2name_ok (hi : TableInv ⟨w, L⟩) (ip : Ip) : ∃ n, utilIp2name c os w ip = .ok n := by
  obtain ⟨o, ho⟩ := hi.lookups.2.2 ip
  unfold utilIp2name
  rw [ho]
  cases o with
  | none =>
    simp only [bind, Except.bind]
    split <;> exact ⟨_, rfl⟩
  | some p => exact found_name hi ho

/-- The name is asked for by the Ethernet address. -/
def NameAsked (w : World) (h : Host) : Prop :=
  h.name = none ∧ utilIpValid h.ip = false ∧ utilEtherValid h.eth = true ∧ utilEther2host w h.eth = .ok none

theorem hostName_error (hi : TableInv ⟨w, L⟩) :
    (∃ f, hostName c os w h = .error f ∧ f.Crash) ↔ NameAsked w h ∧ ¬NameFits c os h.eth := by
  obtain ⟨n, hn⟩ : ∃ n, utilIp2name c os w h.ip = .ok n := ip2name_ok hi h.ip
  have heth : (∃ f, utilEther2name c os w h.eth = .error f ∧ f.Crash) ↔
      utilEther2host w h.eth = .ok none ∧ ¬NameFits c os h.eth := ether2name_error hi
  unfold hostName NameAsked
  rw [hn]
  cases hname : h.name with
  | some n => simp
  | none =>
    cases hip : utilIpValid h.ip with
    | true => simp
    | false =>
      cases hv : utilEtherValid h.eth with
      | false => simp
      | true =>
        simp only [true_and, ← heth, Bool.false_eq_true, if_false, if_true]
        cases utilEther2name c os w h.eth <;> simp

theorem hostIp_error (hi : TableInv ⟨w, L⟩) (he : hostIp c os w h name = .error f) : ¬f.Crash := by
  unfold hostIp at he
  split at he
  · cases he
  · exact name2ip_error hi he

theorem hostEther_error (hi : TableInv ⟨w, L⟩) : (∃ f, hostEther c os w h name = .error f ∧ f.Crash) ↔
    utilEtherValid h.eth = false ∧ UpperOverrun c os w name := by
  rw [← name2ether_error hi]
  unfold hostEther
  cases utilEtherValid h.eth <;> simp

/-- The arrays of `host_add` have room for the record: `name` for what the system calls the machine,
`b` for a copy of the name, and `files` for the texts of its files. -/
structure ArraysHold (c : Conf) (os : Os) (w : World) (h : Host) : Prop where
  name : NameAsked w h → NameFits c os h.eth
  upper : utilEtherValid h.eth = false → ∀ n ip, hostName c os w h = .ok (some n) →
    hostIp c os w h n = .ok ip → ¬UpperOverrun c os w n
  texts : Addressed c os w h → TextsFit c h.mask h.files

/-- A file without a path or a name. -/
theorem filesMasked_error {service : Nat} {fs : List File} :
    filesMasked service fs = .error f ↔ f = .segv ∧ ∃ x ∈ fs, x.path = none ∨ x.name = none := by
  unfold filesMasked
  split
  · rename_i h
    simp only [h, and_true, Except.error.injEq, eq_comm]
  · rename_i h
    simp [h]

/-- Where completing a record crashes. -/
theorem hostComplete_crash (hi : TableInv ⟨w, L⟩) (hf : hostComplete c os w h = .error f) (hcrash : f.Crash) :
    ¬ArraysHold c os w h ∨ Addressed c os w h ∧ ∃ x ∈ h.files, x.path = none ∨ x.name = none := by
  rcases except_bind_error.mp hf with hn | ⟨o, ho, hf'⟩
  · obtain ⟨hasked, hno⟩ := (hostName_error hi).mp ⟨f, hn, hcrash⟩
    exact .inl fun hold => hno (hold.name hasked)
  cases o with
  | none => cases hf'
  | some n =>
    rcases except_bind_error.mp hf' with hip | ⟨ip, hip, hf'⟩
    · exact absurd hcrash (hostIp_error hi hip)
    rcases except_bind_error.mp hf' with heth | ⟨o, heth, hf'⟩
    · obtain ⟨hv, hover⟩ := (hostEther_error hi).mp ⟨f, heth, hcrash⟩
      exact .inl fun hold => hold.upper hv n ip ho hip hover
    cases o with
    | none => cases hf'
    | some eth =>
      have hadd : Addressed c os w h := ⟨n, ip, eth, ho, hip, heth⟩
      by_cases hfit : TextsFit c h.mask h.files
      · rw [hostComplete_addressed ho hip heth, if_pos hfit] at hf
        rcases except_bind_error.mp hf with hfiles | ⟨fs, -, hf⟩
        · exact .inr ⟨hadd, (filesMasked_error.mp hfiles).2⟩
        · cases hf
      · exact .inl fun hold => hfit (hold.texts hadd)

/-- What an addressed record needs to be completed without a crash. -/
theorem addressed_safe (hsafe : ∀ f, hostComplete c os w h = .error f → ¬f.Crash) (hadd : Addressed c os w h) :
    TextsFit c h.mask h.files ∧ ¬∃ x ∈ h.files, x.path = none ∨ x.name = none := by
  obtain ⟨n, ip, eth, hn, hip, heth⟩ := hadd
  have hrun := hostComplete_addressed hn hip heth
  have hfit : TextsFit c h.mask h.files := by
    by_contra hfit
    rw [if_neg hfit] at hrun
    exact hsafe _ hrun fun h => nomatch h
  rw [if_pos hfit] at hrun
  refine ⟨hfit, fun hmissing => ?_⟩
  have hfiles : hostMasked h n ip eth = .error .segv :=
    except_bind_error.mpr (.inl (filesMasked_error.mpr ⟨rfl, hmissing⟩))
  exact hsafe _ (hrun.trans hfiles) fun h => nomatch h

/-- Completing a record without a crash means that the arrays hold it. -/
theorem arraysHold_of_safe (hi : TableInv ⟨w, L⟩) (hsafe : ∀ f, hostComplete c os w h = .error f → ¬f.Crash) :
    ArraysHold c os w h where
  name hasked := by
    by_contra hfits
    obtain ⟨f, hf, hcrash⟩ : ∃ f, hostName c os w h = .error f ∧ f.Crash :=
      (hostName_error hi).mpr ⟨hasked, hfits⟩
    exact hsafe f (except_bind_error.mpr (.inl hf)) hcrash
  upper hv n ip hn hip hover := by
    obtain ⟨f, hf, hcrash⟩ : ∃ f, hostEther c os w h n = .error f ∧ f.Crash :=
      (hostEther_error hi).mpr ⟨hv, hover⟩
    refine hsafe f (except_bind_error.mpr (.inr ⟨some n, hn, ?_⟩)) hcrash
    exact except_bind_error.mpr (.inr ⟨ip, hip, except_bind_error.mpr (.inl hf)⟩)
  texts hadd := (addressed_safe hsafe hadd).1

/-- Completing a record crashes at an array that is too small, or at one of its files. -/
theorem hostComplete_error (hi : TableInv ⟨w, L⟩) : (∃ f, hostComplete c os w h = .error f ∧ f.Crash) ↔
    ¬ArraysHold c os w h ∨ Addressed c os w h ∧ ∃ x ∈ h.files, x.path = none ∨ x.name = none := by
  constructor
  · rintro ⟨f, hf, hcrash⟩
    exact hostComplete_crash hi hf hcrash
  · intro h'
    by_contra hno
    have hsafe : ∀ f, hostComplete c os w h = .error f → ¬f.Crash := fun f hf hcrash => hno ⟨f, hf, hcrash⟩
    rcases h' with hold | ⟨hadd, hmissing⟩
    · exact hold (arraysHold_of_safe hi hsafe)
    · exact (addressed_safe hsafe hadd).2 hmissing

/-- `host_add` can crash only there. -/
theorem hostAddNew_error (hi : TableInv ⟨w, L⟩) : (∃ f w', hostAddNew c os h w = .error f w' ∧ f.Crash) ↔
    ∃ f, hostComplete c os (w.allocHost h) h = .error f ∧ f.Crash := by
  cases hc : hostComplete c os (w.allocHost h) h with
  | error f =>
    have hload : loadHost w.hosts.length (w.allocHost h) = .ok h (w.allocHost h) := by
      rw [loadHost, Exec.get_run, allocHost_new]
      rfl
    have hadd : hostAdd c os w.hosts.length (w.allocHost h) = .error f (w.allocHost h) := by
      unfold hostAdd
      rw [Exec.bind_run hload, Exec.get_run, hc]
      rfl
    have hstop : hostAddNew c os h w = .error f (w.allocHost h) := by
      unfold hostAddNew
      rw [Exec.bind_run (hostAlloc_ok.mpr ⟨rfl, rfl⟩), Exec.bind_stop hadd]
    rw [hstop]
    constructor
    · rintro ⟨f', w', hf, hcrash⟩
      cases hf
      exact ⟨f, rfl, hcrash⟩
    · rintro ⟨f', hf, hcrash⟩
      cases hf
      exact ⟨f, _, rfl, hcrash⟩
  | ok r =>
    obtain ⟨b, w', hrun⟩ := (addNew_returns hi.hostsOk hi.chain).mpr ⟨r, hc⟩
    rw [hrun]
    constructor
    · rintro ⟨_, _, h, -⟩
      cases h
    · rintro ⟨_, h, -⟩
      cases h

end

/-! ## Records -/

/-- A record that has nothing to be named after. -/
def File.Nameless (f : File) : Prop := f.path = none ∧ f.name = none ∧ f.aliases.toList.head?.join = none

section
variable {env : SetupEnv} {st st' : Setup} {h : Host} {f : File} {files files' : List File} {u : Unit} {e : Fault}

theorem addHost_error (hi : TableInv ⟨st.w, st.accepted⟩) : (∃ e, addHost env h st = .error e ∧ e.Crash) ↔
    ¬ArraysHold (st.conf env) env.os (st.w.allocHost h) h ∨
      Addressed (st.conf env) env.os (st.w.allocHost h) h ∧ ∃ x ∈ h.files, x.path = none ∨ x.name = none := by
  rw [← hostComplete_error (hi.alloc h), ← hostAddNew_error hi]
  rw [addHost_run]
  cases hostAddNew (st.conf env) env.os h st.w with
  | ok r w => exact iff_of_false (fun ⟨_, h, _⟩ => nomatch h) fun ⟨_, _, h, _⟩ => nomatch h
  | error e' w =>
    constructor
    · rintro ⟨e, he, hcrash⟩
      cases he
      exact ⟨e', w, rfl, hcrash⟩
    · rintro ⟨e, w', he, hcrash⟩
      cases he
      exact ⟨e', rfl, hcrash⟩

theorem addHost_inv (hi : TableInv ⟨st.w, st.accepted⟩) (hnext : h.next = none)
    (hrun : addHost env h st = .ok (u, st')) : TableInv ⟨st'.w, st'.accepted⟩ := by
  obtain ⟨p, b, w', hadd, rfl⟩ := addHost_ok hrun
  exact hostAddNew_inv hi hadd rfl fun _ => hnext

theorem fileName_error : fileName f = .error e ↔ e = .segv ∧ f.Nameless := by
  unfold fileName File.Nameless
  cases hn : f.name with
  | some n => simp
  | none =>
    cases ha : f.aliases.toList.head?.join with
    | some a => simp
    | none =>
      cases hp : f.path with
      | none => simp [strIsEqual, eq_comm]
      | some p => simp only; split <;> simp

theorem fileListed_ok {name : CStr} (hnames : ∀ x ∈ files, x.name ≠ none) : ∃ b, fileListed name files = .ok b := by
  induction files with
  | nil => exact ⟨false, rfl⟩
  | cons x fs ih =>
    simp only [List.mem_cons, forall_eq_or_imp] at hnames
    obtain ⟨n, hn⟩ := Option.ne_none_iff_exists'.mp hnames.1
    rw [fileListed, hn]
    simp only
    split
    · exact ⟨true, rfl⟩
    · exact ih hnames.2

/-- `host_file_add` crashes at a record without a path, a name and an alias. -/
theorem hostFileAdd_error (hnames : ∀ x ∈ files, x.name ≠ none) :
    hostFileAdd files f = .error e ↔ e = .segv ∧ f.Nameless := by
  rw [← fileName_error]
  unfold hostFileAdd
  cases hname : fileName f with
  | error e' => simp [bind, Except.bind]
  | ok o =>
    cases o with
    | none => simp [bind, Except.bind]
    | some n =>
      obtain ⟨b, hb⟩ : ∃ b, fileListed n files = .ok b := fileListed_ok hnames
      cases b <;> simp [bind, Except.bind, hb]

theorem hostFileAdd_names (hnames : ∀ x ∈ files, x.name ≠ none) (hrun : hostFileAdd files f = .ok files') :
    ∀ x ∈ files', x.name ≠ none := by
  obtain ⟨o, -, hrun⟩ := except_bind_ok hrun
  cases o with
  | none =>
    cases hrun
    exact hnames
  | some n =>
    obtain ⟨b, -, hrun⟩ := except_bind_ok hrun
    cases b with
    | true =>
      cases hrun
      exact hnames
    | false =>
      cases hrun
      intro x hx
      rcases List.mem_append.mp hx with hx | hx
      · exact hnames x hx
      · rw [List.mem_singleton.mp hx]
        exact Option.some_ne_none n

end
/-! ## Calls -/

section
variable {α : Type} {m : SetupM α} {x : Except Fault α} {st st' : Setup} {a : α} {Q : α → Setup → Prop}

theorem call_run (m : SetupM α) (st : Setup) : Meaning.call m st = match m st with
    | .ok r => .ok r
    | .error f => .error (.fault f) := rfl

theorem call_ok : Meaning.call m st = .ok (a, st') ↔ m st = .ok (a, st') := by
  rw [call_run]
  cases m st <;> simp

theorem call_hits : Hits Refusal.Crash (Meaning.call m) st ↔ ∃ f, m st = .error f ∧ f.Crash := by
  unfold Hits
  rw [call_run]
  cases m st with
  | ok r => simp
  | error f => simp [Refusal.Crash]

theorem call_avoids (h : Avoids Fault.Crash m st Q) : Avoids Refusal.Crash (Meaning.call m) st Q := by
  refine .intro (fun a st' hr => h.ok (call_ok.mp hr)) fun r hr hcrash => ?_
  obtain ⟨f, hf, hbad⟩ := call_hits.mp ⟨r, hr, hcrash⟩
  exact h.error hf hbad

/-- A call that does not need the setup. -/
theorem lift_ok : (x : SetupM α) st = .ok (a, st') ↔ x = .ok a ∧ st' = st := by
  cases x with
  | ok b =>
    constructor
    · intro h
      cases h
      exact ⟨rfl, rfl⟩
    · rintro ⟨h, rfl⟩
      cases h
      rfl
  | error f => exact iff_of_false (fun h => nomatch h) fun h => nomatch h.1

theorem lift_error {f : Fault} : (x : SetupM α) st = .error f ↔ x = .error f := by
  cases x with
  | ok b => exact iff_of_false (fun h => nomatch h) fun h => nomatch h
  | error f' => exact ⟨fun h => congrArg _ (Except.error.inj h), fun h => congrArg _ (Except.error.inj h)⟩

end

/-! ## Lookups -/

/-- `μ` cannot crash, and the setup stays as it is. -/
def Looks {α : Type} (μ : MeaningM α) (st : Setup) : Prop := Avoids Refusal.Crash μ st fun _ st' => st' = st

section
variable {α β : Type} {μ : MeaningM α} {φ : α → MeaningM β} {conv : ConfEntry → MeaningM α} {dst : α} {env : SetupEnv}
  {st : Setup} {es : List ConfEntry} {k : Keyword} {e : ConfEntry} {w : CStr}

theorem Looks.pure (a : α) : Looks (pure a) st := rfl

theorem Looks.report : Looks (Meaning.report w : MeaningM α) st := fun h => h

theorem Looks.orReport (o : Option α) : Looks (Meaning.orReport w o) st := by
  cases o with
  | none => exact .report
  | some a => exact .pure a

theorem Looks.bind (h : Looks μ st) (hφ : ∀ a, Looks (φ a) st) : Looks (μ >>= φ) st :=
  Avoids.bind h fun a _ hst => hst ▸ hφ a

theorem Looks.get {φ : Setup → MeaningM β} (h : Looks (φ st) st) : Looks (get >>= φ) st := h

theorem Looks.ite {c : Prop} [Decidable c] {ν : MeaningM α} (h : Looks μ st) (h' : Looks ν st) :
    Looks (if c then μ else ν) st := by
  split
  · exact h
  · exact h'

theorem Looks.warn (w : CStr) : Looks (Meaning.warn w) st := .get (.ite (.pure ()) .report)

/-- A call that only answers. -/
theorem Looks.call {x : Except Fault α} (h : ∀ f, x = .error f → ¬f.Crash) :
    Looks (Meaning.call (x : SetupM α)) st :=
  call_avoids (.intro (fun _ _ hr => (lift_ok.mp hr).2) fun f hr => h f (lift_error.mp hr))

theorem Looks.single (hconv : ∀ e, Looks (conv e) st) : Looks (Meaning.single es k conv dst) st := by
  unfold Meaning.single
  split
  · exact .pure _
  · exact .ite .report (hconv _)
  · exact .report

theorem Looks.self (hconv : Looks (conv e) st) : Looks (Meaning.self e conv dst) st := .ite (.pure _) hconv

theorem Looks.known (es : List ConfEntry) (L : List CStr) : Looks (Meaning.known es L) st := by
  unfold Meaning.known
  cases es.find? (·.name ∉ L) with
  | none => exact .pure _
  | some e => exact .report

theorem Looks.string (dst : Option CStr) (e : ConfEntry) : Looks (Meaning.string dst e) st := .ite .report (.pure _)

theorem Looks.int (e : ConfEntry) : Looks (Meaning.int e) st := by
  unfold Meaning.int
  split
  · exact .pure _
  · exact .report

theorem Looks.services (es : List ConfEntry) (dst : Nat) : Looks (Meaning.services es dst) st := .get (.orReport _)

theorem ether_run : Meaning.ether env e st = match env.lib.etherAton e.value with
    | some eth => .ok (eth, st)
    | none =>
      if st.cResolveEther = false then .error (.reported ⟨st.filename, e.value⟩)
      else match utilName2ether (st.conf env) env.os st.w e.value with
        | .ok (some eth) => .ok (eth, st)
        | .ok none => .error (.reported ⟨st.filename, e.value⟩)
        | .error f => .error (.fault f) := by
  unfold Meaning.ether
  cases env.lib.etherAton e.value with
  | some eth => rfl
  | none =>
    show (if st.cResolveEther = false then Meaning.report e.value else _ : MeaningM Ether) st = _
    simp only
    split
    · rfl
    · show Meaning.call _ st >>= _ = _
      rw [call_run]
      cases utilName2ether (st.conf env) env.os st.w e.value with
      | error f => rfl
      | ok o => cases o <;> rfl

/-- The value of an `ether` statement: a name that is too long to be converted. -/
theorem ether_hits (hi : TableInv ⟨st.w, st.accepted⟩) : Hits Refusal.Crash (Meaning.ether env e) st ↔
    UpperOverrun (st.conf env) env.os st.w e.value := by
  unfold Hits
  rw [ether_run]
  cases haton : env.lib.etherAton e.value with
  | some eth =>
    refine iff_of_false (fun ⟨_, h, _⟩ => nomatch h) fun h => ?_
    exact Option.some_ne_none eth (haton.symm.trans h.1.aton)
  | none =>
    by_cases hres : st.cResolveEther = false
    · simp only [if_pos hres]
      refine iff_of_false ?_ fun h => Bool.false_ne_true (hres.symm.trans h.1.resolve)
      rintro ⟨r, hr, hcrash⟩
      cases hr
      exact hcrash
    · simp only [if_neg hres]
      rw [← name2ether_error hi]
      cases utilName2ether (st.conf env) env.os st.w e.value with
      | error f => simp [Refusal.Crash]
      | ok o => cases o <;> simp [Refusal.Crash]

theorem ether_ok {eth : Ether} {st' : Setup} (h : Meaning.ether env e st = .ok (eth, st')) : st' = st := by
  rw [ether_run] at h
  split at h
  · cases h
    rfl
  · split_ifs at h
    split at h
    all_goals cases h
    rfl

theorem Looks.ip (hi : TableInv ⟨st.w, st.accepted⟩) (e : ConfEntry) : Looks (Meaning.ip env e) st := by
  unfold Meaning.ip
  split
  · exact .pure _
  · exact .get (.ite .report (.call fun f hf => name2ip_error hi hf))

theorem Looks.aliases (es : List ConfEntry) (n : Nat) : Looks (Meaning.aliases es n) st := by
  induction n with
  | zero => exact .pure _
  | succ n ih =>
    refine .bind ih fun v => .bind ?_ fun a => .pure _
    unfold Meaning.aliasOf
    split
    · exact .pure _
    · exact .ite .report (.pure _)

theorem Looks.fileRecord (e : ConfEntry) : Looks (Meaning.fileRecord e) st :=
  .bind (.self (.string _ _)) fun _ => .bind (.single (.string _)) fun _ => .bind (.single (.string _)) fun _ =>
    .bind (.services _ _) fun _ => .bind (.aliases _ _) fun _ => .ite .report <|
    .bind (.single (.string _)) fun _ => .bind (.known _ _) fun _ => .pure _

end

/-! ## In front of the hosts -/

/-- The host table is in order. -/
def Setup.InOrder (st : Setup) : Prop := TableInv ⟨st.w, st.accepted⟩

/-- `μ` cannot crash, and the host table stays in order. -/
def Upkeep {α : Type} (μ : MeaningM α) : Prop :=
  ∀ st : Setup, st.InOrder → Avoids Refusal.Crash μ st fun _ st' => st'.InOrder

section
variable {α β : Type} {μ : MeaningM α} {φ : α → MeaningM β} {env : SetupEnv} {st : Setup} {s : Nat}

theorem Upkeep.bind (h : Upkeep μ) (hφ : ∀ a, Upkeep (φ a)) : Upkeep (μ >>= φ) := fun st hi =>
  (h st hi).bind fun a _ hi' => hφ a _ hi'

theorem Upkeep.of_looks (h : ∀ st : Setup, st.InOrder → Looks μ st) : Upkeep μ := fun st hi =>
  (h st hi).mono fun _ _ hst => hst ▸ hi

theorem Upkeep.modify {f : Setup → Setup} (hf : ∀ st, KeepsHosts st (f st)) : Upkeep (modify f) := fun st hi =>
  Avoids.modify (g := f) (by
    unfold Setup.InOrder
    rw [(hf st).accepted]
    exact hi.opensOwn (hf st).w)

theorem Upkeep.setting {cur : Setup → α} {read : α → MeaningM α} {set : α → Setup → Setup}
    (hread : ∀ (st : Setup) a, st.InOrder → Looks (read a) st) (hset : ∀ a st, KeepsHosts st (set a st)) :
    Upkeep (Meaning.setting cur read set) := fun st hi =>
  Avoids.get (Upkeep.bind (.of_looks fun st' hi' => hread st' _ hi') (fun a => .modify (hset a)) st hi)

theorem Upkeep.basic (root : List ConfEntry) : Upkeep (Meaning.basic root) := by
  refine .bind (.setting (fun _ _ _ => .single (.string _)) fun _ _ => .same rfl rfl rfl) fun _ => ?_
  refine .bind (.setting (fun _ _ _ => .single (.string _)) fun _ _ => .same rfl rfl rfl) fun _ => ?_
  refine .bind (.setting (fun _ _ _ => .single fun _ => .orReport _) fun _ _ => .same rfl rfl rfl) fun _ => ?_
  refine .bind (.setting (fun _ _ _ => .single fun _ => .orReport _) fun _ _ => .same rfl rfl rfl) fun _ => ?_
  refine .bind (.setting (fun _ _ _ => .single .int) fun _ _ => .same rfl rfl rfl) fun _ => ?_
  exact .setting (fun _ _ _ => .single .int) fun _ _ => .same rfl rfl rfl

theorem Upkeep.log (env : SetupEnv) (root : List ConfEntry) : Upkeep (Meaning.log env root) := by
  unfold Meaning.log
  split
  · exact .modify (logInit_keepsHosts env 0 none)
  · rename_i e _
    refine .bind (.of_looks fun st _ => ?_) fun r => .modify (logInit_keepsHosts env r.1 r.2)
    exact .bind (.single fun _ => .pure _) fun _ => .bind (.single fun _ => .orReport _) fun _ =>
      .bind (.known _ _) fun _ => .pure _
  · exact .of_looks fun _ _ => .report

/-! ## Bindings -/

/-- Service `s` is there. -/
structure Ready (s : Nat) (st : Setup) : Prop where
  hosts : st.InOrder
  service : s < st.services.length

/-- `m` cannot crash when service `s` is there, and it stays. -/
def Serves (s : Nat) {α : Type} (m : SetupM α) : Prop :=
  ∀ st, Ready s st → Avoids Fault.Crash m st fun _ => Ready s

theorem Serves.pure (a : α) : Serves s (pure a : SetupM α) := fun _ hr => hr

theorem Serves.bind {m : SetupM α} {f : α → SetupM β} (h : Serves s m) (hf : ∀ a, Serves s (f a)) :
    Serves s (m >>= f) := fun st hr => (h st hr).bind fun a st' hr' => hf a st' hr'

theorem Serves.get {f : Setup → SetupM β} (hf : ∀ st, Ready s st → Avoids Fault.Crash (f st) st fun _ => Ready s) :
    Serves s (MonadState.get >>= f) := fun st hr => hf st hr

theorem Serves.foldlM {f : β → α → SetupM β} (hf : ∀ b a, Serves s (f b a)) (as : List α) (b : β) :
    Serves s (as.foldlM f b) := fun _ hr =>
  Avoids.foldlM (I := fun _ => Ready s) hr fun a _ b _ hr => hf b a _ hr

/-- A lookup in the table that can only exit. -/
theorem Serves.lift {x : Setup → Except Fault α} (hx : ∀ st : Setup, st.InOrder → ∀ f, x st = .error f → ¬f.Crash)
    {φ : α → SetupM β} (hφ : ∀ a, Serves s (φ a)) :
    Serves s (MonadState.get >>= fun st => (x st : SetupM α) >>= φ) := by
  refine .get fun st hr => ?_
  have hlift : Avoids Fault.Crash (x st : SetupM α) st fun _ => Ready s :=
    .intro (fun _ _ hrun => (lift_ok.mp hrun).2 ▸ hr) fun f hrun => hx st hr.hosts f (lift_error.mp hrun)
  exact hlift.bind fun a st' hr' => hφ a st' hr'

theorem Serves.bindSlot {slots : NetService → Nat} {f : NetService → NetService} : Serves s (bindSlot s slots f) := by
  refine .get fun st hr => ?_
  rw [List.getElem?_eq_getElem hr.service]
  simp only
  split
  · exact ⟨hr.hosts, by rw [List.length_set]; exact hr.service⟩
  · exact hr

theorem Serves.deviceInit (env : SetupEnv) : Serves s (deviceInit env) := by
  refine .get fun st hr => ?_
  split
  · exact ⟨hr.hosts, hr.service⟩
  · exact hr

theorem Serves.udpDevice (d : Device) (port : UInt16) : Serves s (lServiceUdpDeviceAdd s d port) := by
  refine .foldlM (fun b ip => ?_) _ _
  split
  · exact Serves.bindSlot.bind fun _ => .pure _
  · exact .pure _

theorem Serves.byName (env : SetupEnv) (name : CStr) : Serves s (deviceSearchByName env name) :=
  (Serves.deviceInit env).bind fun _ => .pure _

theorem Serves.byEth (env : SetupEnv) (eth : Ether) : Serves s (deviceSearchByEth env eth) :=
  (Serves.deviceInit env).bind fun _ => .pure _

theorem Serves.linkAdd (env : SetupEnv) (w : CStr) : Serves s (serviceLinkAdd env s w) := by
  unfold serviceLinkAdd
  split
  · exact .get fun st hr => Serves.foldlM (fun b d => Serves.bindSlot.bind fun _ => .pure _) _ _ st hr
  · refine (Serves.byName env w).bind fun d => ?_
    split
    · exact .bindSlot
    · split
      · exact .pure _
      · rename_i eth haton
        have haddr : ∀ st : Setup, utilName2ether (st.conf env) env.os st.w w = .ok (some eth) := fun _ =>
          name2ether_aton haton
        refine .lift (fun st _ f hf => nomatch (haddr st).symm.trans hf) fun o => ?_
        split
        · exact .pure _
        · refine (Serves.byEth env _).bind fun d => ?_
          split
          · exact .pure _
          · exact .bindSlot

theorem Serves.udpAdd (env : SetupEnv) (w : CStr) : Serves s (serviceUdpAdd env s w) := by
  unfold serviceUdpAdd
  split
  · exact .pure _
  · split
    · exact .pure _
    · split
      · exact .bindSlot
      · split
        · exact .bindSlot
        · split
          · refine (Serves.byEth env _).bind fun d => ?_
            split
            · exact .pure _
            · exact .udpDevice _ _
          · refine (Serves.byName env _).bind fun d => ?_
            split
            · exact .udpDevice _ _
            · exact .lift (fun st hi f hf => name2ip_error hi hf) fun ip => .bindSlot

theorem addBindings_avoids {add : CStr → SetupM Bool} (hadd : ∀ w, Serves s (add w)) (e : ConfEntry) (u : Unit)
    (hr : Ready s st) : Avoids Refusal.Crash (Meaning.addBindings add e u) st fun _ => Ready s := by
  refine Avoids.forM hr fun w _ st hr => (call_avoids (hadd w st hr)).bind fun b st' hr' => ?_
  cases b with
  | true => exact hr'
  | false => exact (Looks.warn w).mono fun _ _ hst => hst ▸ hr'

/-- The statements in the block of a service. -/
theorem bindings_avoids (env : SetupEnv) (id : Nat) (sub : List ConfEntry) (hr : Ready s st) :
    Avoids Refusal.Crash (Meaning.bindings env id s sub) st fun _ => Ready s := by
  unfold Meaning.bindings
  split
  · exact Avoids.foldlM (I := fun _ => Ready s) hr fun e _ u st hr => addBindings_avoids (.linkAdd env) e u hr
  · split
    · exact Avoids.foldlM (I := fun _ => Ready s) hr fun e _ u st hr => addBindings_avoids (.udpAdd env) e u hr
    · exact hr

theorem Upkeep.service (env : SetupEnv) (e : ConfEntry) (u : Unit) : Upkeep (Meaning.service env e u) := by
  intro st hi
  unfold Meaning.service
  split
  · exact fun h => h
  · have hid : Looks (Meaning.orReport [] (strGetService st.services e.value 0)) st := .orReport _
    refine Avoids.get (Avoids.bind hid fun id st' hst => ?_)
    rw [hst]
    cases hs : serviceSearchById st.services id with
    | none => exact fun h => h
    | some s =>
      have hlt : s < st.services.length := (List.findIdx?_eq_some_iff_getElem.mp hs).1
      exact (bindings_avoids env id e.sub ⟨hi, hlt⟩).mono fun _ _ hr => hr.hosts

/-- In front of the hosts nothing can crash. -/
theorem Upkeep.head (env : SetupEnv) (root : List ConfEntry) : Upkeep (Meaning.head env root) :=
  .bind (.log env root) fun _ => .bind (.basic root) fun _ => fun _ hi =>
    Avoids.foldlM (I := fun _ (s : Setup) => s.InOrder) hi fun e _ u _ hi => Upkeep.service env e u _ hi

end

end Bootd
