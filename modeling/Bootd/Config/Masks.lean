import Bootd.Config.Complete
import Bootd.L4Daemon.HostTable

/-!
# The service masks of the hosts

Which blocks end up as a host or as a file of a host is decided along the way, by
`host_add` and `host_file_add`. `AddRounds` goes through the rounds of a loop and
keeps those that added something to a list, with the state they started in.

* `HostBlocks`, `FileBlocks`: the blocks that were accepted.
* `hostComplete_masks`: what `host_add` makes of the masks that were read.
* `confFile_masks`: the masks in the table in the end.
-/
namespace Bootd

open Bootd.Core

/-- A round that added something. -/
structure Added (γ : Type) where
  entry : ConfEntry
  before : EvalState
  made : γ

/-- Rounds as in `Rounds`; those with one more element in the list. -/
inductive AddRounds {β γ : Type} (body : ConfEntry → β → EvalM β) (list : β → EvalState → List γ) :
    List ConfEntry → β → EvalState → List (Added γ) → β → EvalState → Prop
  | nil (b : β) (s : EvalState) : AddRounds body list [] b s [] b s
  | skip {e : ConfEntry} {es : List ConfEntry} {b b₁ b' : β} {s s₁ s' : EvalState} {as : List (Added γ)} :
      Fresh s e → body e b (s.take e) = .ok b₁ s₁ → list b₁ s₁ = list b s →
      AddRounds body list es b₁ s₁ as b' s' → AddRounds body list (e :: es) b s as b' s'
  | add {e : ConfEntry} {es : List ConfEntry} {b b₁ b' : β} {s s₁ s' : EvalState} {as : List (Added γ)} {r : γ} :
      Fresh s e → body e b (s.take e) = .ok b₁ s₁ → list b₁ s₁ = list b s ++ [r] →
      AddRounds body list es b₁ s₁ as b' s' → AddRounds body list (e :: es) b s (⟨e, s, r⟩ :: as) b' s'

/-- The host blocks whose records were linked in. -/
def HostBlocks (env : SetupEnv) (root : List ConfEntry) (st : EvalState) (hs : List (Added HostId))
    (st' : EvalState) : Prop :=
  ∃ s, confHead env root st = .ok () s ∧
    AddRounds (evalHost env) (fun _ s => s.setup.accepted) (named kwHost root) () s hs () st'

/-- The file blocks whose records are in the list of that host. -/
def FileBlocks (env : SetupEnv) (b : Added HostId) (fs : List (Added File)) : Prop :=
  ∃ s files s', hostHead env b.entry (b.before.take b.entry) = .ok () s ∧
    AddRounds evalFile (fun files _ => files) (named kwFile b.entry.sub) [] s fs files s'

/-- `mask`, or `dflt` if it is zero. -/
def orDefault (dflt mask : Nat) : Nat := if mask = 0 then dflt else mask

/-- The record has these masks. -/
structure Masked (h : Host) (mask : Nat) (files : List Nat) : Prop where
  host : h.service = orDefault serviceAll mask
  files : h.files.map (·.service) = files.map (orDefault h.service)

/-! ## Rounds that add -/

section
variable {β γ : Type} {body : ConfEntry → β → EvalM β} {list : β → EvalState → List γ} {es : List ConfEntry}
  {b b' b'' : β} {s s' s'' : EvalState} {as as' : List (Added γ)}

theorem AddRounds.made (h : AddRounds body list es b s as b' s') : list b' s' = list b s ++ as.map (·.made) := by
  induction h with
  | nil b s => simp
  | skip _ _ hl _ ih => rw [ih, hl]
  | add _ _ hl _ ih => rw [ih, hl, List.append_assoc, List.map_cons, List.singleton_append]

theorem AddRounds.entry_mem (h : AddRounds body list es b s as b' s') : ∀ a ∈ as, a.entry ∈ es := by
  induction h with
  | nil b s => simp
  | skip _ _ _ _ ih => exact fun a ha => List.mem_cons_of_mem _ (ih a ha)
  | add _ _ _ _ ih =>
    intro a ha
    rcases List.mem_cons.mp ha with rfl | ha
    · exact List.mem_cons_self
    · exact List.mem_cons_of_mem _ (ih a ha)

/-- The rounds and what they add depend on the start only. -/
theorem AddRounds.unique (h : AddRounds body list es b s as b' s') (h' : AddRounds body list es b s as' b'' s'') :
    as = as' ∧ b' = b'' ∧ s' = s'' := by
  induction h generalizing as' with
  | nil b s =>
    cases h'
    exact ⟨rfl, rfl, rfl⟩
  | skip _ hrun hl _ ih =>
    cases h' with
    | skip _ hrun' _ hrest =>
      cases hrun.symm.trans hrun'
      exact ih hrest
    | add _ hrun' hl' _ =>
      cases hrun.symm.trans hrun'
      exact absurd (hl.symm.trans hl') (by simp)
  | add _ hrun hl _ ih =>
    cases h' with
    | skip _ hrun' hl' _ =>
      cases hrun.symm.trans hrun'
      exact absurd (hl'.symm.trans hl) (by simp)
    | add _ hrun' hl' hrest =>
      cases hrun.symm.trans hrun'
      obtain ⟨rfl, rfl, rfl⟩ := ih hrest
      have hlast := List.append_cancel_left (hl.symm.trans hl')
      cases hlast
      exact ⟨rfl, rfl, rfl⟩

/-- If a round adds one element at most, rounds come with a list of what they add. -/
theorem Rounds.adds (list : β → EvalState → List γ) (h : Rounds body es b s b' s')
    (hone : ∀ e ∈ es, ∀ b s b' s', Fresh s e → body e b (s.take e) = .ok b' s' →
      list b' s' = list b s ∨ ∃ r, list b' s' = list b s ++ [r]) : ∃ as, AddRounds body list es b s as b' s' := by
  induction h with
  | nil b s => exact ⟨[], .nil b s⟩
  | cons hf hrun _ ih =>
    obtain ⟨as, ih⟩ := ih fun e he => hone e (List.mem_cons_of_mem _ he)
    rcases hone _ List.mem_cons_self _ _ _ _ hf hrun with hl | ⟨r, hl⟩
    · exact ⟨as, .skip hf hrun hl ih⟩
    · exact ⟨_, .add hf hrun hl ih⟩

end

/-! ## Masks -/

section
variable {c : Conf} {os : Os} {w w' : World} {h h' : Host} {env : SetupEnv} {e : ConfEntry}
  {es root : List ConfEntry} {s s' st st' : EvalState} {svs : List NetService} {hs : List (Added HostId)}

theorem hostFiles_masks {service : Nat} {fs fs' : List File} (h : hostFiles c service 0 fs = .ok fs') :
    fs'.map (·.service) = (fs.map (·.service)).map (orDefault service) := by
  obtain ⟨rfl, -⟩ := hostFiles_listed h
  rw [List.map_map, List.map_map]
  refine List.map_congr_left fun f _ => ?_
  show (f.masked service).service = if f.service = 0 then service else f.service
  unfold File.masked
  split <;> rfl

/-- A record that gets past the checks has every service for no service, and its files likewise its own. -/
theorem hostComplete_masks (hr : hostComplete c os w h = .ok (h', true)) :
    Masked h' h.service (h.files.map (·.service)) := by
  obtain ⟨n, -, hr⟩ := except_bind_ok hr
  cases n with
  | none => cases hr
  | some n =>
    obtain ⟨ip, -, hr⟩ := except_bind_ok hr
    obtain ⟨eth, -, hr⟩ := except_bind_ok hr
    cases eth with
    | none => cases hr
    | some eth =>
      obtain ⟨fs, hfs, hr⟩ := except_bind_ok hr
      cases hr
      exact ⟨rfl, hostFiles_masks hfs⟩

/-- Adding a host leaves the masks of the others. -/
theorem AddFrame.masked {p : HostId} {mask : Nat} {files : List Nat} (hf : AddFrame w w') (hh : w.hosts[p]? = some h)
    (hm : Masked h mask files) : ∃ h', w'.hosts[p]? = some h' ∧ Masked h' mask files := by
  have hlt := (List.getElem?_eq_some_iff.mp hh).1
  refine ⟨{ h with next := (w'.next p).join }, ?_, hm.host, hm.files⟩
  rw [hf.hosts p hlt, hh]
  rfl

/-- The files that a host block brings, with the masks that were read. -/
theorem files_masks (hd : Distinct e.sub) {fs : List (Added File)} {files files' : List File}
    (hin : ∀ c ∈ es, c ∈ e.sub) (hkeys : svcKeys s.setup.services = svcKeys svs)
    (h : AddRounds evalFile (fun files _ => files) es files s fs files' s') :
    ∀ f ∈ fs, readServices svs (named kwService f.entry.sub) 0 = some f.made.service := by
  induction es generalizing files s fs with
  | nil =>
    cases h
    simp
  | cons c es ih =>
    have hc := hin c List.mem_cons_self
    have hround : ∀ {files files₁ : List File} {s₁ : EvalState}, Fresh s c →
        evalFile c files (s.take c) = .ok files₁ s₁ → s₁.setup = s.setup ∧ (files₁ = files ∨ ∃ f : File,
          readServices s.setup.services (named kwService c.sub) 0 = some f.service ∧ files₁ = files ++ [f]) := by
      intro files files₁ s₁ hf hrun
      obtain ⟨-, -, hset, hfs⟩ := evalFile_ok (hd.sub hc) (hf.inside hd hc) hrun
      exact ⟨hset, hfs⟩
    cases h with
    | skip hf hrun hl hrest =>
      obtain ⟨hset, -⟩ := hround hf hrun
      exact ih (fun x hx => hin x (List.mem_cons_of_mem _ hx)) (by rw [hset]; exact hkeys) hrest
    | add hf hrun hl hrest =>
      obtain ⟨hset, hfs⟩ := hround hf hrun
      intro f hmem
      rcases List.mem_cons.mp hmem with rfl | hmem
      · rcases hfs with rfl | ⟨f, hread, rfl⟩
        · exact absurd hl (by simp)
        · cases List.append_cancel_left hl
          rw [← readServices_congr hkeys]
          exact hread
      · exact ih (fun x hx => hin x (List.mem_cons_of_mem _ hx)) (by rw [hset]; exact hkeys) hrest f hmem

theorem HostBlocks.entry_mem (h : HostBlocks env root st hs st') : ∀ b ∈ hs, b.entry ∈ named kwHost root := by
  obtain ⟨_, _, hadds⟩ := h
  exact hadds.entry_mem

theorem FileBlocks.entry_mem {b : Added HostId} {fs : List (Added File)} (h : FileBlocks env b fs) :
    ∀ f ∈ fs, f.entry ∈ named kwFile b.entry.sub := by
  obtain ⟨_, _, _, _, hadds⟩ := h
  exact hadds.entry_mem

theorem FileBlocks.unique {b : Added HostId} {fs fs' : List (Added File)} (h : FileBlocks env b fs)
    (h' : FileBlocks env b fs') : fs = fs' := by
  obtain ⟨_, _, _, hhead, hadds⟩ := h
  obtain ⟨_, _, _, hhead', hadds'⟩ := h'
  cases hhead.symm.trans hhead'
  exact (hadds.unique hadds').1

/-- The files of a host block, as `FileBlocks` lists them. -/
theorem FilesFrom.blocks {files : List File} {p : HostId} (hd : Distinct root) (he : e ∈ root)
    (h : FilesFrom env e (s.take e) files) : ∃ fs, FileBlocks env ⟨e, s, p⟩ fs ∧ files = fs.map (·.made) ∧
      ∀ f ∈ fs, readServices s.setup.services (named kwService f.entry.sub) 0 = some f.made.service := by
  obtain ⟨s₁, s₂, hhead, hset, hr⟩ := h
  obtain ⟨fs, hadds⟩ := hr.adds (fun files _ => files) fun c _ files s files' s' _ hrun => by
    obtain ⟨f, s₃, -, hadd⟩ := Exec.bind_ok.mp hrun
    rcases hostFileAdd_ok (liftSetup_except hadd).2 with heq | ⟨n, p, heq⟩
    · exact .inl heq
    · exact .inr ⟨_, heq⟩
  refine ⟨fs, ⟨s₁, files, s₂, hhead, hadds⟩, hadds.made, ?_⟩
  refine files_masks (hd.sub he) (fun c hc => (mem_named.mp hc).1) ?_ hadds
  rw [hset]
  rfl

/-- A round over a host block: the table grows by one record, with the masks that were read. -/
theorem evalHost_round {u : Unit} (hd : Distinct root) (he : e ∈ root) (hf : Fresh s e)
    (hi : TableInv ⟨s.setup.w, s.setup.accepted⟩) (hrun : evalHost env e () (s.take e) = .ok u s') :
    TableInv ⟨s'.setup.w, s'.setup.accepted⟩ ∧ s'.setup.services = s.setup.services ∧
      AddFrame s.setup.w s'.setup.w ∧
      (s'.setup.accepted = s.setup.accepted ∨ ∃ p h mask fs, s'.setup.accepted = s.setup.accepted ++ [p] ∧
        s'.setup.w.hosts[p]? = some h ∧ FileBlocks env ⟨e, s, p⟩ fs ∧ Masked h mask (fs.map (·.made.service)) ∧
        readServices s.setup.services (named kwService e.sub) 0 = some mask ∧
        ∀ f ∈ fs, readServices s.setup.services (named kwService f.entry.sub) 0 = some f.made.service) := by
  obtain ⟨-, -, host, p, b, w', hnew, hset, hread, hfiles, hnext⟩ :=
    evalHost_ok (hd.sub he) (hf.inside hd he) hrun
  obtain ⟨h', complete, hc, -, hp, hframe, hcase⟩ := hostAddNew_ok (Chain.Lasso.of_path hi.chain) hnew
  have hi' : TableInv ⟨w', if b then s.setup.accepted ++ [p] else s.setup.accepted⟩ :=
    hostAddNew_inv hi hnew rfl fun _ => hnext
  rw [hset]
  refine ⟨hi', rfl, hframe, ?_⟩
  rcases hcase with ⟨rfl, -⟩ | ⟨rfl, rfl, -⟩
  · exact .inl rfl
  · obtain ⟨fs, hblocks, hmade, hfs⟩ := hfiles.blocks (p := p) hd he
    refine .inr ⟨p, h', host.service, fs, rfl, hp, hblocks, ?_, hread, hfs⟩
    have hm := hostComplete_masks hc
    rwa [hmade, List.map_map] at hm

/-- What the rounds over the hosts come to. -/
theorem hosts_masks (hd : Distinct root) (hin : ∀ e ∈ es, e ∈ root)
    (hi : TableInv ⟨s.setup.w, s.setup.accepted⟩) (hkeys : svcKeys s.setup.services = svcKeys svs)
    (h : AddRounds (evalHost env) (fun _ s => s.setup.accepted) es () s hs () s') :
    (∀ (p : HostId) h mask files, s.setup.w.hosts[p]? = some h → Masked h mask files →
      ∃ h', s'.setup.w.hosts[p]? = some h' ∧ Masked h' mask files) ∧
    ∀ b ∈ hs, ∃ h mask fs, s'.setup.w.hosts[b.made]? = some h ∧ FileBlocks env b fs ∧
      Masked h mask (fs.map (·.made.service)) ∧ readServices svs (named kwService b.entry.sub) 0 = some mask ∧
      ∀ f ∈ fs, readServices svs (named kwService f.entry.sub) 0 = some f.made.service := by
  induction es generalizing s hs with
  | nil =>
    cases h
    exact ⟨fun p h mask files hh hm => ⟨h, hh, hm⟩, by simp⟩
  | cons e es ih =>
    have he := hin e List.mem_cons_self
    replace ih := fun {s hs} => @ih s hs fun x hx => hin x (List.mem_cons_of_mem _ hx)
    cases h with
    | skip hf hrun hl hrest =>
      obtain ⟨hi', hsvs, hframe, -⟩ := evalHost_round hd he hf hi hrun
      obtain ⟨hold, hnew⟩ := ih hi' (by rw [hsvs]; exact hkeys) hrest
      refine ⟨fun p h mask files hh hm => ?_, hnew⟩
      obtain ⟨h', hh', hm'⟩ := hframe.masked hh hm
      exact hold p h' mask files hh' hm'
    | add hf hrun hl hrest =>
      obtain ⟨hi', hsvs, hframe, hcase⟩ := evalHost_round hd he hf hi hrun
      obtain ⟨hold, hnew⟩ := ih hi' (by rw [hsvs]; exact hkeys) hrest
      refine ⟨fun p h mask files hh hm => ?_, fun b hb => ?_⟩
      · obtain ⟨h', hh', hm'⟩ := hframe.masked hh hm
        exact hold p h' mask files hh' hm'
      rcases List.mem_cons.mp hb with rfl | hb
      · rcases hcase with hl' | ⟨p, h, mask, fs, hl', hh, hfs, hm, hread, hreads⟩
        · exact absurd (hl'.symm.trans hl) (by simp)
        · cases List.append_cancel_left (hl'.symm.trans hl)
          obtain ⟨h', hh', hm'⟩ := hold _ h mask _ hh hm
          refine ⟨h', mask, fs, hh', hfs, hm', ?_, fun f hf => ?_⟩
          · rw [← readServices_congr hkeys]
            exact hread
          · rw [← readServices_congr hkeys]
            exact hreads f hf
      · exact hnew b hb

/-- The blocks that were accepted are those behind the new hosts in the table. -/
theorem confFile_hosts (hd : Distinct root) (hfresh : ∀ e ∈ root, Fresh st e)
    (hrun : confFile env root st = .ok () st') : ∃ hs, HostBlocks env root st hs st' ∧
      st'.setup.accepted = st.setup.accepted ++ hs.map (·.made) := by
  obtain ⟨-, s, hhead, hkeep, hr⟩ := confFile_ok hd hfresh hrun
  obtain ⟨hs, hadds⟩ := hr.adds (fun _ s => s.setup.accepted) fun e he _ s _ s' hf hrun => by
    have he := (mem_named.mp he).1
    obtain ⟨-, -, host, p, b, w', -, hset, -⟩ :=
      evalHost_ok (hd.sub he) (hf.inside hd he) hrun
    rw [hset]
    cases b with
    | true => exact .inr ⟨p, rfl⟩
    | false => exact .inl rfl
  refine ⟨hs, ⟨s, hhead, hadds⟩, ?_⟩
  rw [← hkeep.accepted]
  exact hadds.made

/-- The masks of all hosts and files that a configuration has brought, in the table in the end. -/
theorem confFile_masks (hd : Distinct root) (hfresh : ∀ e ∈ root, Fresh st e)
    (hi : TableInv ⟨st.setup.w, st.setup.accepted⟩) (hrun : confFile env root st = .ok () st')
    (hhs : HostBlocks env root st hs st') {b : Added HostId} (hb : b ∈ hs) :
    ∃ h mask fs, st'.setup.w.hosts[b.made]? = some h ∧ FileBlocks env b fs ∧
      Masked h mask (fs.map (·.made.service)) ∧
      readServices st.setup.services (named kwService b.entry.sub) 0 = some mask ∧
      ∀ f ∈ fs, readServices st.setup.services (named kwService f.entry.sub) 0 = some f.made.service := by
  obtain ⟨-, s₁, hhead, hkeep, -⟩ := confFile_ok hd hfresh hrun
  obtain ⟨s, hhead', hadds⟩ := hhs
  cases hhead.symm.trans hhead'
  have hi₁ : TableInv ⟨s₁.setup.w, s₁.setup.accepted⟩ := by
    rw [hkeep.accepted]
    exact hi.opensOwn hkeep.w
  obtain ⟨-, hall⟩ := hosts_masks hd (fun e he => (mem_named.mp he).1) hi₁ hkeep.keys hadds
  exact hall b hb

end

end Bootd
