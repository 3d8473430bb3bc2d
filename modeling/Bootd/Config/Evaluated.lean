import Bootd.Config.Eval
import Bootd.Config.Marks

/-!
# What the blocks take

An evaluator that returns has taken the statements it knows. For `file` and
`host` blocks these are all there are, since both end in `i_assure_no_entry`; but
it looks at one level only, and a statement's own block is left as it was
(`Leaf`).

* `convString_ok` to `convIp_ok`: reading a value takes nothing.
* `iGetService_part`: `readServices`, the words of all `service` statements.
* `fileRecord_ok`, `hostRecord_ok`: the two kinds of block, with the masks read.
-/
namespace Bootd

open Bootd.Core

section
variable {α : Type} {es : List ConfEntry} {e x : ConfEntry} {i : EntId} {s s' s'' : EvalState} {L : List CStr}
  {D : EvalState → ConfEntry → Prop} {k : Keyword}

/-! ## Values -/

theorem convString_ok {root : List ConfEntry} {name : Option Keyword} {dst r : Option CStr}
    (h : convString root name dst e s = .ok r s') : s' = s ∧ r = some e.value := by
  unfold convString at h
  split at h
  · exact absurd h (by simp)
  · obtain ⟨rfl, rfl⟩ := Exec.pure_ok.mp h
    exact ⟨rfl, rfl⟩

theorem convBool_ok {b : Bool} (h : convBool e s = .ok b s') : s' = s := by
  unfold convBool at h
  cases hb : strGetBool e.value with
  | none => rw [hb] at h; exact absurd h (by simp)
  | some b => rw [hb] at h; exact (Exec.pure_ok.mp h).2.symm

theorem convInt_ok {n : Int} (h : convInt e s = .ok n s') : s' = s := by
  unfold convInt at h
  match hn : strGetInt e.value with
  | (n, true) => rw [hn] at h; exact (Exec.pure_ok.mp h).2.symm
  | (n, false) => rw [hn] at h; exact absurd h (by simp)

theorem convLoglevel_ok {n : Nat} (h : convLoglevel e s = .ok n s') : s' = s := by
  unfold convLoglevel at h
  cases hn : strGetLoglevel e.value with
  | none => rw [hn] at h; exact absurd h (by simp)
  | some b => rw [hn] at h; exact (Exec.pure_ok.mp h).2.symm

/-- The resolver leaves the configuration alone. -/
theorem liftSetup_except {m : Except Fault α} {a : α} (h : liftSetup (m : SetupM α) s = .ok a s') :
    s' = s ∧ m = .ok a := by
  obtain ⟨st, hm, rfl⟩ := liftSetup_ok h
  cases m with
  | error f => cases hm
  | ok b =>
    cases hm
    exact ⟨rfl, rfl⟩

theorem convEther_ok {env : SetupEnv} {eth : Ether} (h : convEther env e s = .ok eth s') : s' = s := by
  unfold convEther at h
  cases hat : env.lib.etherAton e.value with
  | some eth => rw [hat] at h; exact (Exec.pure_ok.mp h).2.symm
  | none =>
    rw [hat] at h
    simp only [Exec.get_run] at h
    split at h
    · exact absurd h (by simp)
    · obtain ⟨r, s₁, hr, h⟩ := Exec.bind_ok.mp h
      obtain ⟨rfl, -⟩ := liftSetup_except hr
      cases r with
      | none => exact absurd h (by simp)
      | some eth => exact (Exec.pure_ok.mp h).2.symm

theorem convIp_ok {env : SetupEnv} {ip : Ip} (h : convIp env e s = .ok ip s') : s' = s := by
  unfold convIp at h
  cases hat : env.lib.inetAton e.value with
  | some ip => rw [hat] at h; exact (Exec.pure_ok.mp h).2.symm
  | none =>
    rw [hat] at h
    simp only [Exec.get_run] at h
    split at h
    · exact absurd h (by simp)
    · exact (liftSetup_except h).1

end

/-! ## Words for services -/

/-- What the words of these statements come to, read in order from `dst` on. -/
def readServices (svs : List NetService) (es : List ConfEntry) (dst : Nat) : Option Nat :=
  (es.flatMap (·.values)).foldlM (fun dst w => strGetService svs w dst) dst

theorem readServices_cons (svs : List NetService) (e : ConfEntry) (es : List ConfEntry) (dst : Nat) :
    readServices svs (e :: es) dst =
      (e.values.foldlM (fun dst w => strGetService svs w dst) dst).bind (readServices svs es) := by
  unfold readServices
  rw [List.flatMap_cons, List.foldlM_append]
  rfl

section
variable {es : List ConfEntry} {e : ConfEntry} {s s' : EvalState} {k : Keyword} {dst m : Nat}

theorem addService_ok (h : addService e dst s = .ok m s') :
    s' = s ∧ e.values.foldlM (fun dst w => strGetService s.setup.services w dst) dst = some m := by
  unfold addService at h
  generalize e.values = ws at h ⊢
  induction ws generalizing dst with
  | nil =>
    obtain ⟨rfl, rfl⟩ := Exec.pure_ok.mp h
    exact ⟨rfl, rfl⟩
  | cons w ws ih =>
    rw [List.foldlM_cons] at h
    obtain ⟨d, s₁, hd, h⟩ := Exec.bind_ok.mp h
    rw [Exec.get_run] at hd
    rw [List.foldlM_cons]
    cases hw : strGetService s.setup.services w dst with
    | none =>
      rw [hw] at hd
      exact absurd hd (by simp)
    | some d' =>
      rw [hw] at hd
      obtain ⟨rfl, rfl⟩ := Exec.pure_ok.mp hd
      exact ih h

theorem addService_eats (hd : Distinct es) (he : e ∈ es) : Eats (fun _ => True) addService Leaf e := by
  intro b s b' s' _ hf h
  obtain ⟨rfl, -⟩ := addService_ok h
  refine ⟨trivial, fun i hi => Function.update_of_ne (fun heq => hi ?_) _ _, take_leaf hd he hf⟩
  rw [heq]
  exact id_mem e

theorem addService_rounds {b : Nat} (h : Rounds addService es b s m s') :
    s'.setup = s.setup ∧ readServices s.setup.services es b = some m := by
  induction es generalizing b s with
  | nil =>
    cases h
    exact ⟨rfl, rfl⟩
  | cons e es ih =>
    cases h with
    | cons hf hround hrest =>
      obtain ⟨rfl, hfold⟩ := addService_ok hround
      obtain ⟨hset, hread⟩ := ih hrest
      rw [readServices_cons]
      refine ⟨hset, ?_⟩
      rw [show s.setup.services = (s.take e).setup.services from rfl, hfold]
      exact hread

theorem leaf_used {s : EvalState} {e : ConfEntry} (h : Leaf s e) : s.used e.id ≠ 0 := by
  rw [h.1]
  exact Nat.one_ne_zero

theorem iGetService_part (hd : Distinct es) (hfresh : ∀ e ∈ es, e.name = k.1 → Fresh s e)
    (h : iGetService es k dst s = .ok m s') : Part es (· = k.1) Leaf s s' ∧ s'.setup = s.setup ∧
      readServices s.setup.services (named k es) dst = some m := by
  obtain ⟨-, hr, hp⟩ := whileEntry_rounds hd local_leaf (fun _ _ => leaf_used) trivial hfresh
    (fun e he _ => addService_eats hd he) h
  exact ⟨hp, addService_rounds hr⟩

end

/-! ## Blocks -/

section
variable {es : List ConfEntry} {e x : ConfEntry} {s s' : EvalState} {k : Keyword} {L : List CStr}
  {D : EvalState → ConfEntry → Prop}

theorem iGetString_part {dst r : Option CStr} (hd : Distinct es) (hfresh : ∀ e ∈ es, e.name = k.1 → Fresh s e)
    (h : iGetString es (some k) dst true s = .ok r s') : Part es (· = k.1) Leaf s s' ∧ s'.setup = s.setup :=
  iGet_part hd hfresh (fun h => (convString_ok h).1) h

theorem iGetString_self {dst r : Option CStr} (h : iGetString [e] none dst true s = .ok r s') : s' = s := by
  rcases iGet_self h with ⟨-, rfl⟩ | h
  · rfl
  · exact (convString_ok h).1

/-- Some aliases are taken, the others are as they were. -/
theorem iGetAliases_part {n : Nat} {v : Vector (Option CStr) n} (hd : Distinct es)
    (hfresh : ∀ e ∈ es, e.name = kwAlias.1 → Fresh s e) (h : iGetAliases es n s = .ok v s') :
    Part es (· = kwAlias.1) (fun s x => Fresh s x ∨ Leaf s x) s s' ∧ s'.setup = s.setup := by
  induction n generalizing s' with
  | zero =>
    obtain ⟨-, rfl⟩ := Exec.pure_ok.mp h
    exact ⟨⟨fun _ _ => rfl, fun e he hn => .inl (hfresh e he hn)⟩, rfl⟩
  | succ n ih =>
    obtain ⟨v', s₁, hv', h⟩ := Exec.bind_ok.mp h
    obtain ⟨a, s₂, ha, h⟩ := Exec.bind_ok.mp h
    obtain ⟨-, rfl⟩ := Exec.pure_ok.mp h
    obtain ⟨hp, hset⟩ := ih hv'
    rcases iGet_ok ha with ⟨-, rfl, -⟩ | ⟨e, he, hn, h0, hval, -⟩
    · exact ⟨hp, hset⟩
    · obtain ⟨rfl, -⟩ := convString_ok hval
      refine ⟨⟨fun i hi => ?_, fun x hx hxn => ?_⟩, hset⟩
      · rw [← hp.only i hi]
        exact Function.update_of_ne (fun heq => hi e he hn (by rw [heq]; exact id_mem e)) _ _
      · by_cases hex : e = x
        · rw [← hex]
          rcases hp.done e he hn with hf | hl
          · exact .inr (take_leaf hd he hf)
          · rw [hl.1] at h0
            exact absurd h0 Nat.one_ne_zero
        · have hs := take_same (s := s₁) hd he hx hex
          exact (hp.done x hx hxn).imp (fun hf => hf.congr hs) fun hl => local_leaf _ _ _ hs hl

/-- All statements of a `file` block are taken. -/
theorem fileRecord_ok {f : File} (hd : Distinct e.sub) (hf : ∀ x ∈ e.sub, Fresh s x)
    (h : fileRecord e s = .ok f s') :
    (∀ i, (∀ x ∈ e.sub, i ∉ x.ids) → s'.used i = s.used i) ∧ (∀ x ∈ e.sub, Leaf s' x) ∧ s'.setup = s.setup ∧
      readServices s.setup.services (named kwService e.sub) 0 = some f.service := by
  obtain ⟨path₀, s₀, h₀, r₀⟩ := Exec.bind_ok.mp h
  obtain rfl := iGetString_self h₀
  obtain ⟨path, s₁, h₁, r₁⟩ := Exec.bind_ok.mp r₀
  have hp := Part.nil e.sub Leaf s₀
  obtain ⟨hp₁, hset₁⟩ := iGetString_part hd (hp.fresh hd (by decide) hf) h₁
  replace hp := hp.next hd local_leaf (by decide) hp₁
  obtain ⟨name, s₂, h₂, r₂⟩ := Exec.bind_ok.mp r₁
  obtain ⟨hp₂, hset₂⟩ := iGetString_part hd (hp.fresh hd (by decide) hf) h₂
  replace hp := hp.next hd local_leaf (by decide) hp₂
  obtain ⟨service, s₃, h₃, r₃⟩ := Exec.bind_ok.mp r₂
  obtain ⟨hp₃, hset₃, hread⟩ := iGetService_part hd (hp.fresh hd (by decide) hf) h₃
  replace hp := hp.next hd local_leaf (by decide) hp₃
  obtain ⟨aliases, s₄, h₄, r₄⟩ := Exec.bind_ok.mp r₃
  obtain ⟨hp₄, hset₄⟩ := iGetAliases_part hd (hp.fresh hd (by decide) hf) h₄
  rw [Exec.bind_run (parseEntryGet_run _ _ _)] at r₄
  cases hfind : e.sub.find? fun e => s₄.Finds (some kwAlias) e with
  | some a =>
    rw [hfind] at r₄
    exact absurd r₄ (by simp)
  | none =>
    rw [hfind] at r₄
    -- no alias is left
    have hp₄ : Part e.sub (· = kwAlias.1) Leaf s₃ s₄ := hp₄.mono fun x hx hxn hd =>
      hd.resolve_left fun hf => find_none hfind x hx hxn (hf x.id (id_mem x))
    replace hp := hp.next hd local_leaf (by decide) hp₄
    obtain ⟨server, s₅, h₅, r₅⟩ := Exec.bind_ok.mp r₄
    obtain ⟨hp₅, hset₅⟩ := iGetString_part hd (hp.fresh hd (by decide) hf) h₅
    replace hp := hp.next hd local_leaf (by decide) hp₅
    obtain ⟨_, s₆, hassure, r₆⟩ := Exec.bind_ok.mp r₅
    obtain ⟨rfl, hall⟩ := assure_none hassure
    obtain ⟨rfl, rfl⟩ := Exec.pure_ok.mp r₆
    refine ⟨fun i hi => hp.only i fun x hx _ => hi x hx, fun x hx => (hp.all hd hf hall x hx).2, ?_, ?_⟩
    · rw [hset₅, hset₄, hset₃, hset₂, hset₁]
    · rw [← hset₁, ← hset₂]
      exact hread

end

/-! ## The blocks of hosts -/

/-- A block of statements: all of it is taken. -/
def BlockDone (s : EvalState) (e : ConfEntry) : Prop := s.used e.id = 1 ∧ ∀ x ∈ e.sub, Leaf s x

/-- An entry in a `host` block. -/
def HostPart (s : EvalState) (x : ConfEntry) : Prop := if x.name = kwFile.1 then BlockDone s x else Leaf s x

def HostDone (s : EvalState) (e : ConfEntry) : Prop := s.used e.id = 1 ∧ ∀ x ∈ e.sub, HostPart s x

/-- The statements in front of the files. mirrors src/conf.c:307-312 -/
def hostHead (env : SetupEnv) (e : ConfEntry) : EvalM Unit := do
  let name ← iGetString [e] none none true
  let _ ← iGetString e.sub (some kwName) name true
  let _ ← iGetEther env e.sub kwEther .zero true
  let _ ← iGetIp env e.sub kwIp 0 true
  let _ ← iGetService e.sub kwService 0

/-- The files of a host block that is evaluated from `s` on, and the loop that made them. -/
def FilesFrom (env : SetupEnv) (e : ConfEntry) (s : EvalState) (fs : List File) : Prop :=
  ∃ s₁ s₂, hostHead env e s = .ok () s₁ ∧ s₁.setup = s.setup ∧ Rounds evalFile (named kwFile e.sub) [] s₁ fs s₂

section
variable {es : List ConfEntry} {e : ConfEntry} {i : EntId} {s s' : EvalState}

theorem local_blockDone : Local BlockDone := fun _ _ e hs ⟨h1, hsub⟩ =>
  ⟨(hs e.id (id_mem e)).trans h1, fun x hx => local_leaf _ _ x (hs.sub hx) (hsub x hx)⟩

theorem local_hostPart : Local HostPart := by
  intro s s' e hs h
  unfold HostPart at h ⊢
  split
  · rename_i hn
    rw [if_pos hn] at h
    exact local_blockDone s s' e hs h
  · rename_i hn
    rw [if_neg hn] at h
    exact local_leaf s s' e hs h

theorem local_hostDone : Local HostDone := fun _ _ e hs ⟨h1, hsub⟩ =>
  ⟨(hs e.id (id_mem e)).trans h1, fun x hx => local_hostPart _ _ x (hs.sub hx) (hsub x hx)⟩

/-- An evaluator of a block touches the entry, which is taken, and what is in it. -/
theorem eats_block (hd : Distinct es) (he : e ∈ es) (hf : Fresh s e)
    (hin : ∀ i, (∀ x ∈ e.sub, i ∉ x.ids) → s'.used i = (s.take e).used i) :
    (∀ i ∉ e.ids, s'.used i = s.used i) ∧ s'.used e.id = 1 := by
  refine ⟨fun i hi => ?_, ?_⟩
  · rw [hin i fun x hx hix => hi (sub_mem hx hix)]
    exact Function.update_of_ne (fun heq => hi (by rw [heq]; exact id_mem e)) _ _
  · rw [hin e.id fun x hx => hd.id_notMem he hx, take_self, hf e.id (id_mem e)]

/-- The list of a host's files, with the new record or without it. -/
theorem hostFileAdd_ok {fs fs' : List File} {f : File} (h : hostFileAdd fs f = .ok fs') :
    fs' = fs ∨ ∃ n p, fs' = fs ++ [{ f with name := n, path := p }] := by
  obtain ⟨n, -, h⟩ := except_bind_ok h
  cases n with
  | none => exact .inl (Except.ok.inj h).symm
  | some n =>
    obtain ⟨b, -, h⟩ := except_bind_ok h
    cases b with
    | true => exact .inl (Except.ok.inj h).symm
    | false => exact .inr ⟨_, _, (Except.ok.inj h).symm⟩

theorem evalFile_ok {fs fs' : List File} (hd : Distinct e.sub) (hf : ∀ x ∈ e.sub, Fresh s x)
    (h : evalFile e fs s = .ok fs' s') :
    (∀ i, (∀ x ∈ e.sub, i ∉ x.ids) → s'.used i = s.used i) ∧ (∀ x ∈ e.sub, Leaf s' x) ∧ s'.setup = s.setup ∧
      (fs' = fs ∨ ∃ f, readServices s.setup.services (named kwService e.sub) 0 = some f.service ∧
        fs' = fs ++ [f]) := by
  obtain ⟨f, s₁, hf₁, hadd⟩ := Exec.bind_ok.mp h
  obtain ⟨hin, hleaf, hset, hread⟩ := fileRecord_ok hd hf hf₁
  obtain ⟨rfl, hlist⟩ := liftSetup_except hadd
  refine ⟨hin, hleaf, hset, ?_⟩
  rcases hostFileAdd_ok hlist with rfl | ⟨n, p, rfl⟩
  · exact .inl rfl
  · exact .inr ⟨{ f with name := n, path := p }, hread, rfl⟩

theorem evalFile_eats (hd : Distinct es) (he : e ∈ es) (st : Setup) :
    Eats (fun s => s.setup = st) evalFile BlockDone e := by
  intro fs s fs' s' hst hf h
  have hsub : ∀ x ∈ e.sub, Fresh (s.take e) x := hf.inside hd he
  obtain ⟨hin, hleaf, hset, -⟩ := evalFile_ok (hd.sub he) hsub h
  obtain ⟨honly, h1⟩ := eats_block hd he hf hin
  exact ⟨hset.trans hst, honly, h1, hleaf⟩

/-- All of a `host` block is taken. -/
theorem hostRecord_ok {env : SetupEnv} {h : Host} (hd : Distinct e.sub) (hf : ∀ x ∈ e.sub, Fresh s x)
    (hrun : hostRecord env e s = .ok h s') :
    (∀ i, (∀ x ∈ e.sub, i ∉ x.ids) → s'.used i = s.used i) ∧ (∀ x ∈ e.sub, HostPart s' x) ∧
      s'.setup = s.setup ∧ readServices s.setup.services (named kwService e.sub) 0 = some h.service ∧
      FilesFrom env e s h.files ∧ h.next = none := by
  obtain ⟨name₀, s₀, h₀, r₀⟩ := Exec.bind_ok.mp hrun
  obtain rfl := iGetString_self h₀
  have hleaf : ∀ {k : Keyword} {s s' : EvalState}, k.1 ≠ kwFile.1 → Part e.sub (· = k.1) Leaf s s' →
      Part e.sub (· = k.1) HostPart s s' := by
    intro k s s' hk hp
    refine hp.mono fun x hx hxn hl => ?_
    unfold HostPart
    rwa [if_neg (by rw [hxn]; exact hk)]
  have hp := Part.nil e.sub HostPart s₀
  obtain ⟨name, s₁, h₁, r₁⟩ := Exec.bind_ok.mp r₀
  obtain ⟨hp₁, hset₁⟩ := iGetString_part hd (hp.fresh hd (by decide) hf) h₁
  replace hp := hp.next hd local_hostPart (by decide) (hleaf (by decide) hp₁)
  obtain ⟨eth, s₂, h₂, r₂⟩ := Exec.bind_ok.mp r₁
  obtain ⟨hp₂, hset₂⟩ := iGet_part hd (hp.fresh hd (by decide) hf) convEther_ok h₂
  replace hp := hp.next hd local_hostPart (by decide) (hleaf (by decide) hp₂)
  obtain ⟨ip, s₃, h₃, r₃⟩ := Exec.bind_ok.mp r₂
  obtain ⟨hp₃, hset₃⟩ := iGet_part hd (hp.fresh hd (by decide) hf) convIp_ok h₃
  replace hp := hp.next hd local_hostPart (by decide) (hleaf (by decide) hp₃)
  obtain ⟨service, s₄, h₄, r₄⟩ := Exec.bind_ok.mp r₃
  obtain ⟨hp₄, hset₄, hread⟩ := iGetService_part hd (hp.fresh hd (by decide) hf) h₄
  replace hp := hp.next hd local_hostPart (by decide) (hleaf (by decide) hp₄)
  obtain ⟨files, s₅, h₅, r₅⟩ := Exec.bind_ok.mp r₄
  have hsame : s₄.setup = s₀.setup := hset₄.trans (hset₃.trans (hset₂.trans hset₁))
  obtain ⟨hset₅, hr₅, hp₅⟩ := whileEntry_rounds hd local_blockDone
    (fun _ _ hb => by rw [hb.1]; exact Nat.one_ne_zero) hsame (hp.fresh hd (by decide) hf)
    (fun x hx _ => evalFile_eats hd hx s₀.setup) h₅
  have hp₅ : Part e.sub (· = kwFile.1) HostPart s₄ s₅ := hp₅.mono fun x hx hxn hb => by
    unfold HostPart
    rwa [if_pos hxn]
  replace hp := hp.next hd local_hostPart (by decide) hp₅
  have hhead : hostHead env e s₀ = .ok () s₄ := by
    rw [hostHead, Exec.bind_run h₀, Exec.bind_run h₁, Exec.bind_run h₂, Exec.bind_run h₃, Exec.bind_run h₄]
    rfl
  obtain ⟨_, s₆, hassure, r₆⟩ := Exec.bind_ok.mp r₅
  obtain ⟨rfl, hall⟩ := assure_none hassure
  obtain ⟨rfl, rfl⟩ := Exec.pure_ok.mp r₆
  rw [hset₃, hset₂, hset₁] at hread
  exact ⟨fun i hi => hp.only i fun x hx _ => hi x hx, fun x hx => (hp.all hd hf hall x hx).2, hset₅, hread,
    ⟨_, _, hhead, hsame, hr₅⟩, rfl⟩

end

end Bootd
