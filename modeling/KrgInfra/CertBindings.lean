/-
What `bind-services` sends.

The command merges two lists: the bindings that are declared, and the reverse proxies whose name
the target certificate has.  It looks neither for a binding that is declared twice nor for one
that is declared and covered.

* `Moves` — the services that are meant to move to the target;
* `MovesExactly` — a list of settings that moves them, and each once;
* `rebound` — the certificates after such a list;
* `bind_once_iff` — when the command sends no service twice.
-/
import KrgInfra.CertKeeper

namespace Certificates

open Python

variable {u : Unicode} {pems : Pems} {certs : List Cert} {target_id : String}

/-! ### Services and their names -/

def Service.key (svc : Service) : String × String := (svc.service, svc.subscriber)

def Setting.key (s : Setting) : String × String := s.service.key

/-- The services of all certificates, each with the certificate that it is bound to. -/
def bound (certs : List Cert) : List (Option String × Service) :=
  certs.flatMap fun cert => cert.services.map fun svc => (cert.id, svc)

theorem mem_bound {cur : Option String × Service} :
    cur ∈ bound certs ↔ ∃ cert ∈ certs, cert.id = cur.1 ∧ cur.2 ∈ cert.services := by
  unfold bound
  rw [List.mem_flatMap]
  refine exists_congr fun cert => and_congr_right fun _ => ?_
  rw [List.mem_map]
  constructor
  · rintro ⟨svc, hsvc, rfl⟩
    exact ⟨rfl, hsvc⟩
  · rintro ⟨hid, hsvc⟩
    exact ⟨cur.2, hsvc, by rw [hid]⟩

/-- Each pair of a service and a subscriber is on one certificate. -/
def Once (certs : List Cert) : Prop := ((bound certs).map fun cur => cur.2.key).Nodup

theorem mem_of_current {key : String × String} {cur : Option String × Service}
    (h : current certs key = some cur) : cur ∈ bound certs ∧ cur.2.key = key := by
  have hkey := List.find?_some h
  exact ⟨List.mem_reverse.mp (List.mem_of_find?_eq_some h), of_decide_eq_true hkey⟩

theorem current_of_mem (honce : Once certs) {cur : Option String × Service}
    (hmem : cur ∈ bound certs) : current certs cur.2.key = some cur := by
  cases hcur : current certs cur.2.key with
  | none =>
    have hnot := List.find?_eq_none.mp hcur cur (List.mem_reverse.mpr hmem)
    exact absurd (decide_eq_true rfl) hnot
  | some other =>
    obtain ⟨hother, hkey⟩ := mem_of_current hcur
    exact congrArg some (List.inj_on_of_nodup_map honce hother hmem hkey)

theorem mem_currentKeys {key : String × String} :
    key ∈ currentKeys u certs ↔ ∃ cur ∈ bound certs, cur.2.key = key := by
  rw [currentKeys, List.mem_insertionSort, List.mem_reverse, List.mem_dedup, List.mem_reverse,
    bound]
  simp only [List.mem_flatMap, List.mem_map]
  constructor
  · rintro ⟨cert, hcert, svc, hsvc, rfl⟩
    exact ⟨(cert.id, svc), ⟨cert, hcert, svc, hsvc, rfl⟩, rfl⟩
  · rintro ⟨cur, ⟨cert, hcert, svc, hsvc, rfl⟩, rfl⟩
    exact ⟨cert, hcert, svc, hsvc, rfl⟩

theorem nodup_currentKeys : (currentKeys u certs).Nodup := by
  refine (List.perm_insertionSort _ _).nodup_iff.mpr ?_
  exact List.nodup_reverse.mpr (List.nodup_dedup _)

/-! ### What is meant to move -/

/-- A reverse proxy whose name is one of the target's. -/
def Covered (u : Unicode) (pems : Pems) (target_id : String) (svc : Service) : Prop :=
  svc.subscriber = "ReverseProxy" ∧
    u.lower (strip (svc.display_name.getD "")) ∈ (cert_sans u pems (some target_id)).getD ∅

/-- A service is meant to move to the target: it is not there, and it is listed or covered. -/
def Moves (u : Unicode) (pems : Pems) (target_id : String) (keys : List (String × String))
    (cur : Option String × Service) : Prop :=
  cur.1 ≠ some target_id ∧ (cur.2.key ∈ keys ∨ Covered u pems target_id cur.2)

/-- The settings are those of the services that are meant to move, and no service has two. -/
structure MovesExactly (u : Unicode) (pems : Pems) (certs : List Cert) (target_id : String)
    (keys : List (String × String)) (settings : List Setting) : Prop where
  once : (settings.map Setting.key).Nodup
  exact : ∀ s, s ∈ settings ↔
    ∃ cur ∈ bound certs, Moves u pems target_id keys cur ∧ s = service_setting cur target_id

/-! ### The two lists -/

/-- The setting of a declared binding, if it is there and not on the target. -/
def declaredSetting (certs : List Cert) (target_id : String) (key : String × String) :
    Option Setting :=
  (current certs key).bind fun cur =>
    if cur.1 = some target_id then none else some (service_setting cur target_id)

theorem declaredSettings_eq (keys : List (String × String)) :
    declaredSettings certs target_id (keys.map some) =
      some (keys.filterMap (declaredSetting certs target_id)) := by
  have hkeys : (keys.map some).mapM id = some keys := by
    induction keys with
    | nil => rfl
    | cons key keys ih =>
      rw [List.map_cons, List.mapM_cons, ih]
      rfl
  rw [declaredSettings, hkeys]
  rfl

theorem declaredSetting_eq_some {key : String × String} {s : Setting} :
    declaredSetting certs target_id key = some s ↔
      ∃ cur, current certs key = some cur ∧ cur.1 ≠ some target_id ∧
        s = service_setting cur target_id := by
  unfold declaredSetting
  cases current certs key with
  | none => simp
  | some cur =>
    by_cases hid : cur.1 = some target_id
    · simp [hid]
    · simp [hid, eq_comm]

/-- The setting of a service, if it is a reverse proxy that the target covers and that is not
there. -/
def proxySetting (u : Unicode) (pems : Pems) (certs : List Cert) (target_id : String)
    (key : String × String) : Option Setting :=
  (current certs key).bind fun cur =>
    if cur.2.subscriber ≠ "ReverseProxy" ∨ cur.1 = some target_id then none
    else if u.lower (strip (cur.2.display_name.getD "")) ∈
        (cert_sans u pems (some target_id)).getD ∅ then
      some (service_setting cur target_id)
    else none

theorem proxySettings_eq :
    proxySettings u pems certs target_id =
      (currentKeys u certs).filterMap (proxySetting u pems certs target_id) := rfl

theorem proxySetting_eq_some {key : String × String} {s : Setting} :
    proxySetting u pems certs target_id key = some s ↔
      ∃ cur, current certs key = some cur ∧ cur.1 ≠ some target_id ∧
        Covered u pems target_id cur.2 ∧ s = service_setting cur target_id := by
  unfold proxySetting Covered
  cases current certs key with
  | none => simp
  | some cur =>
    by_cases hsub : cur.2.subscriber = "ReverseProxy" <;> by_cases hid : cur.1 = some target_id <;>
      by_cases hname : u.lower (strip (cur.2.display_name.getD "")) ∈
        (cert_sans u pems (some target_id)).getD ∅ <;> simp [hsub, hid, hname, eq_comm]

/-- A list of settings that are made of names has the names that give one. -/
theorem map_filterMap_key {f : String × String → Option Setting}
    (h : ∀ key s, f key = some s → s.key = key) (keys : List (String × String)) :
    (keys.filterMap f).map Setting.key = keys.filter fun key => (f key).isSome := by
  induction keys with
  | nil => rfl
  | cons key keys ih =>
    rw [List.filterMap_cons, List.filter_cons]
    cases hf : f key with
    | none => simpa using ih
    | some s =>
      rw [List.map_cons, ih, h key s hf]
      rfl

theorem key_declaredSetting {key : String × String} {s : Setting}
    (h : declaredSetting certs target_id key = some s) : s.key = key := by
  obtain ⟨cur, hcur, -, rfl⟩ := declaredSetting_eq_some.mp h
  exact (mem_of_current hcur).2

theorem key_proxySetting {key : String × String} {s : Setting}
    (h : proxySetting u pems certs target_id key = some s) : s.key = key := by
  obtain ⟨cur, hcur, -, -, rfl⟩ := proxySetting_eq_some.mp h
  exact (mem_of_current hcur).2

/-- The settings of the command. -/
def bindSettings (u : Unicode) (pems : Pems) (certs : List Cert) (target_id : String)
    (keys : List (String × String)) : List Setting :=
  keys.filterMap (declaredSetting certs target_id) ++ proxySettings u pems certs target_id

/-- They are those of the services that are meant to move. -/
theorem mem_bindSettings (honce : Once certs) {keys : List (String × String)} {s : Setting} :
    s ∈ bindSettings u pems certs target_id keys ↔
      ∃ cur ∈ bound certs, Moves u pems target_id keys cur ∧ s = service_setting cur target_id := by
  rw [bindSettings, proxySettings_eq, List.mem_append, List.mem_filterMap, List.mem_filterMap]
  constructor
  · rintro (⟨key, hkey, hs⟩ | ⟨key, hkey, hs⟩)
    · obtain ⟨cur, hcur, hid, rfl⟩ := declaredSetting_eq_some.mp hs
      obtain ⟨hmem, rfl⟩ := mem_of_current hcur
      exact ⟨cur, hmem, ⟨hid, .inl hkey⟩, rfl⟩
    · obtain ⟨cur, hcur, hid, hcovered, rfl⟩ := proxySetting_eq_some.mp hs
      exact ⟨cur, (mem_of_current hcur).1, ⟨hid, .inr hcovered⟩, rfl⟩
  · rintro ⟨cur, hmem, ⟨hid, hkey | hcovered⟩, rfl⟩
    · have hcur := current_of_mem honce hmem
      exact .inl ⟨cur.2.key, hkey, declaredSetting_eq_some.mpr ⟨cur, hcur, hid, rfl⟩⟩
    · have hcur := current_of_mem honce hmem
      exact .inr ⟨cur.2.key, mem_currentKeys.mpr ⟨cur, hmem, rfl⟩,
        proxySetting_eq_some.mpr ⟨cur, hcur, hid, hcovered, rfl⟩⟩

/-- No service off the target is listed twice, and none that is listed is covered. -/
def NoOverlap (u : Unicode) (pems : Pems) (certs : List Cert) (target_id : String)
    (keys : List (String × String)) : Prop :=
  ∀ cur ∈ bound certs, cur.1 ≠ some target_id →
    keys.count cur.2.key ≤ 1 ∧ (cur.2.key ∈ keys → ¬ Covered u pems target_id cur.2)

/-- No service has two settings exactly where nothing overlaps. -/
theorem nodup_bindSettings_iff (honce : Once certs) (keys : List (String × String)) :
    ((bindSettings u pems certs target_id keys).map Setting.key).Nodup ↔
      NoOverlap u pems certs target_id keys := by
  rw [bindSettings, proxySettings_eq, List.map_append, map_filterMap_key fun _ _ => key_declaredSetting,
    map_filterMap_key fun _ _ => key_proxySetting, List.nodup_append']
  let listed := fun key => (declaredSetting certs target_id key).isSome
  have hkeys : (currentKeys u certs).Nodup := nodup_currentKeys
  have hproxies := hkeys.filter fun key => (proxySetting u pems certs target_id key).isSome
  have hdeclared : ∀ cur ∈ bound certs, cur.1 ≠ some target_id →
      (declaredSetting certs target_id cur.2.key).isSome = true := fun cur hmem hid =>
    Option.isSome_iff_exists.mpr
      ⟨_, declaredSetting_eq_some.mpr ⟨cur, current_of_mem honce hmem, hid, rfl⟩⟩
  constructor
  · rintro ⟨hnodup, -, hdisjoint⟩ cur hmem hid
    refine ⟨?_, fun hkey hcovered => ?_⟩
    · have hcount := List.nodup_iff_count_le_one.mp hnodup cur.2.key
      rwa [List.count_filter (p := listed) (hdeclared cur hmem hid)] at hcount
    · have hsome : (proxySetting u pems certs target_id cur.2.key).isSome = true :=
        Option.isSome_iff_exists.mpr ⟨_, proxySetting_eq_some.mpr
          ⟨cur, current_of_mem honce hmem, hid, hcovered, rfl⟩⟩
      exact hdisjoint (List.mem_filter.mpr ⟨hkey, hdeclared cur hmem hid⟩)
        (List.mem_filter.mpr ⟨mem_currentKeys.mpr ⟨cur, hmem, rfl⟩, hsome⟩)
  · intro hno
    refine ⟨List.nodup_iff_count_le_one.mpr fun key => ?_, hproxies, fun key hkey hproxy => ?_⟩
    · by_cases hsome : (declaredSetting certs target_id key).isSome = true
      · rw [List.count_filter (p := listed) hsome]
        obtain ⟨s, hs⟩ := Option.isSome_iff_exists.mp hsome
        obtain ⟨cur, hcur, hid, -⟩ := declaredSetting_eq_some.mp hs
        obtain ⟨hmem, rfl⟩ := mem_of_current hcur
        exact (hno cur hmem hid).1
      · have hnot : key ∉ keys.filter listed := fun hin => hsome (List.mem_filter.mp hin).2
        rw [List.count_eq_zero_of_not_mem hnot]
        exact Nat.zero_le 1
    · obtain ⟨s, hs⟩ := Option.isSome_iff_exists.mp (List.mem_filter.mp hproxy).2
      obtain ⟨cur, hcur, hid, hcovered, -⟩ := proxySetting_eq_some.mp hs
      obtain ⟨hmem, rfl⟩ := mem_of_current hcur
      exact (hno cur hmem hid).2 (List.mem_filter.mp hkey).1 hcovered

/-! ### After the call -/

/-- A certificate after some settings: the services that they name are on the certificate that
they give. -/
def Cert.rebound (settings : List Setting) (cert : Cert) : Cert :=
  { cert with
    services := cert.services.filter (fun svc => svc.key ∉ settings.map Setting.key) ++
      (settings.filter fun s => cert.id = some s.id).map Setting.service }

/-- `Service.set` -/
def rebound (settings : List Setting) (certs : List Cert) : List Cert :=
  certs.map (Cert.rebound settings)

/-- A service that is not on the target afterwards was there before, and had no setting. -/
theorem mem_bound_rebound {settings : List Setting} {cur : Option String × Service}
    (hid : ∀ s ∈ settings, s.id = target_id) (hmem : cur ∈ bound (rebound settings certs))
    (hoff : cur.1 ≠ some target_id) :
    cur ∈ bound certs ∧ cur.2.key ∉ settings.map Setting.key := by
  obtain ⟨cert', hcert', hcur, hsvc⟩ := mem_bound.mp hmem
  obtain ⟨cert, hcert, rfl⟩ := List.mem_map.mp hcert'
  rcases List.mem_append.mp hsvc with hkept | hmoved
  · obtain ⟨hsvc, hkey⟩ := List.mem_filter.mp hkept
    exact ⟨mem_bound.mpr ⟨cert, hcert, hcur, hsvc⟩, of_decide_eq_true hkey⟩
  · obtain ⟨s, hs, -⟩ := List.mem_map.mp hmoved
    obtain ⟨hs, hto⟩ := List.mem_filter.mp hs
    rw [← hcur, ← hid s hs] at hoff
    exact absurd (of_decide_eq_true hto) hoff

/-- A list that moves everything leaves nothing to move. -/
theorem bindSettings_rebound {keys : List (String × String)} {settings : List Setting}
    (h : MovesExactly u pems certs target_id keys settings) :
    bindSettings u pems (rebound settings certs) target_id keys = [] := by
  have hid : ∀ s ∈ settings, s.id = target_id := by
    intro s hs
    obtain ⟨cur, -, -, rfl⟩ := (h.exact s).mp hs
    rfl
  have hnone : ∀ cur ∈ bound (rebound settings certs), ¬ Moves u pems target_id keys cur := by
    intro cur hmem hmoves
    obtain ⟨hbefore, hkey⟩ := mem_bound_rebound hid hmem hmoves.1
    exact hkey (List.mem_map.mpr ⟨_, (h.exact _).mpr ⟨cur, hbefore, hmoves, rfl⟩, rfl⟩)
  rw [bindSettings, proxySettings_eq, List.append_eq_nil_iff]
  constructor
  · rw [List.filterMap_eq_nil_iff]
    intro key hkey
    by_contra hsome
    obtain ⟨s, hs⟩ := Option.ne_none_iff_exists'.mp hsome
    obtain ⟨cur, hcur, hoff, -⟩ := declaredSetting_eq_some.mp hs
    obtain ⟨hmem, rfl⟩ := mem_of_current hcur
    exact hnone cur hmem ⟨hoff, .inl hkey⟩
  · rw [List.filterMap_eq_nil_iff]
    intro key _
    by_contra hsome
    obtain ⟨s, hs⟩ := Option.ne_none_iff_exists'.mp hsome
    obtain ⟨cur, hcur, hoff, hcovered, -⟩ := proxySetting_eq_some.mp hs
    exact hnone cur (mem_of_current hcur).1 ⟨hoff, .inr hcovered⟩

/-- The selection does not look at services. -/
theorem select_rebound {t : Target} {target : Cert} (settings : List Setting)
    (h : select u pems t certs = .keeper (some target)) :
    select u pems t (rebound settings certs) = .keeper (some (target.rebound settings)) := by
  obtain ⟨want, hwant⟩ : ∃ want, wanted_names u t = some want := by
    rw [← Option.ne_none_iff_exists']
    intro hnone
    rw [select, hnone] at h
    cases h
  have hmatching : matching (rebound settings certs) t.domain =
      (matching certs t.domain).map (Cert.rebound settings) := by
    rw [matching, rebound, List.filter_map]
    rfl
  have hchooses := chooses_of_select h
  have hchooses' : Chooses t.on_duplicate (matching (rebound settings certs) t.domain) := by
    rw [hmatching, Chooses, List.length_map]
    exact hchooses
  have hsorted : sortByKey (rank u pems want) (matching (rebound settings certs) t.domain) =
      (sortByKey (rank u pems want) (matching certs t.domain)).map (Cert.rebound settings) := by
    rw [hmatching, sortByKey, sortByKey]
    symm
    exact List.map_insertionSort (fun a b => rank u pems want a ≤ rank u pems want b)
      (fun a b => rank u pems want a ≤ rank u pems want b) _ _ fun _ _ _ _ => Iff.rfl
  rw [select_eq hwant hchooses']
  rw [select_eq hwant hchooses] at h
  rw [hsorted, List.getLast?_map, Selection.keeper.inj h]
  rfl

/-! ### The command -/

/-- A run that comes to its settings: well-formed bindings, and a certificate for the domain. -/
structure Ready (u : Unicode) (pems : Pems) (a : BindArgs) (certs : List Cert) (target_id : String)
    (keys : List (String × String)) : Prop where
  apply : a.check = false
  bindings : a.bindings = some (keys.map some)
  target : ∃ target, select u pems a.toTarget certs = .keeper (some target) ∧
    target.id = some target_id

/-- Such a run sends its settings, if there are any. -/
theorem do_bind_services_of_ready {a : BindArgs} {keys : List (String × String)}
    (h : Ready u pems a certs target_id keys) (reply : Option Bool) :
    do_bind_services u pems a (some certs) reply =
      if bindSettings u pems certs target_id keys = [] then .without .no_change
      else send false (bindSettings u pems certs target_id keys) reply := by
  obtain ⟨target, hselect, hid⟩ := h.target
  simp only [do_bind_services, h.bindings, hselect, bind_with, hid, declaredSettings_eq, h.apply]
  rfl

theorem mapM_id_eq_some {bindings : List (Option (String × String))}
    {keys : List (String × String)} (h : bindings.mapM id = some keys) :
    bindings = keys.map some := by
  induction bindings generalizing keys with
  | nil =>
    obtain rfl := Option.some_inj.mp h
    rfl
  | cons binding bindings ih =>
    rw [List.mapM_cons] at h
    obtain ⟨key, hkey, h⟩ := Option.bind_eq_some_iff.mp h
    obtain ⟨rest, hrest, h⟩ := Option.bind_eq_some_iff.mp h
    obtain rfl := Option.some_inj.mp h
    rw [List.map_cons, ← ih hrest, show binding = some key from hkey]

/-- Any other run sends nothing, and outside check mode it does not succeed. -/
theorem of_not_ready {a : BindArgs} (h : ∀ target_id keys, ¬ Ready u pems a certs target_id keys)
    (reply : Option Bool) : (do_bind_services u pems a (some certs) reply).requests = [] ∧
      (a.check = false →
        (do_bind_services u pems a (some certs) reply).outcome ∉ [.no_change, .changed]) := by
  have hraised : (Outcome.raised : Outcome) ∉ [Outcome.no_change, .changed] := by decide
  have hfail : (Outcome.fail : Outcome) ∉ [Outcome.no_change, .changed] := by decide
  cases hbindings : a.bindings with
  | none =>
    simp only [do_bind_services, hbindings]
    exact ⟨rfl, fun _ => hfail⟩
  | some bindings =>
    cases hselect : select u pems a.toTarget certs with
    | raised =>
      simp only [do_bind_services, hbindings, hselect]
      exact ⟨rfl, fun _ => hraised⟩
    | ambiguous ids =>
      simp only [do_bind_services, hbindings, hselect]
      exact ⟨rfl, fun _ => hfail⟩
    | keeper keeper =>
      simp only [do_bind_services, hbindings, hselect]
      cases keeper with
      | none =>
        refine ⟨rfl, fun hcheck => ?_⟩
        simp only [bind_with, hcheck]
        exact hfail
      | some target =>
        cases hid : target.id with
        | none =>
          simp only [bind_with, hid]
          exact ⟨rfl, fun _ => hraised⟩
        | some target_id =>
          cases hkeys : bindings.mapM id with
          | none =>
            simp only [bind_with, hid, declaredSettings, hkeys]
            exact ⟨rfl, fun _ => hfail⟩
          | some keys =>
            obtain rfl := mapM_id_eq_some hkeys
            cases hcheck : a.check with
            | false => exact absurd ⟨hcheck, hbindings, target, hselect, hid⟩ (h target_id keys)
            | true =>
              refine ⟨?_, fun hno => Bool.noConfusion hno⟩
              simp only [bind_with, hid, declaredSettings_eq, hcheck]
              split_ifs
              · rfl
              · rfl

/-- What the command sends is what is meant to move, and after a run that succeeds a second one
has nothing to send. -/
def BindsOnce (u : Unicode) (pems : Pems) (a : BindArgs) (certs : List Cert) : Prop :=
  ∀ reply,
    (∀ target_id keys, Ready u pems a certs target_id keys →
      MovesExactly u pems certs target_id keys
        (do_bind_services u pems a (some certs) reply).requests.flatten) ∧
    ((∀ target_id keys, ¬ Ready u pems a certs target_id keys) →
      (do_bind_services u pems a (some certs) reply).requests = []) ∧
    (a.check = false →
      (do_bind_services u pems a (some certs) reply).outcome ∈ [.no_change, .changed] →
      ∀ reply', do_bind_services u pems a
        (some (rebound (do_bind_services u pems a (some certs) reply).requests.flatten certs))
        reply' = .without .no_change)

/-- What a run that is ready sends. -/
theorem flatten_of_ready {a : BindArgs} {keys : List (String × String)}
    (h : Ready u pems a certs target_id keys) (reply : Option Bool) :
    (do_bind_services u pems a (some certs) reply).requests.flatten =
      bindSettings u pems certs target_id keys := by
  rw [do_bind_services_of_ready h]
  by_cases hnil : bindSettings u pems certs target_id keys = []
  · rw [if_pos hnil, hnil]
    rfl
  · rw [if_neg hnil]
    rcases reply with _ | _ | _ <;> exact List.append_nil _

theorem Ready.rebound {a : BindArgs} {keys : List (String × String)}
    (h : Ready u pems a certs target_id keys) (settings : List Setting) :
    Ready u pems a (rebound settings certs) target_id keys where
  apply := h.apply
  bindings := h.bindings
  target := by
    obtain ⟨target, hselect, hid⟩ := h.target
    exact ⟨target.rebound settings, select_rebound settings hselect, hid⟩

/-- No service is sent twice, and what is sent is what is meant to move, exactly when nothing that
is listed overlaps. -/
theorem bind_once_iff (u : Unicode) (pems : Pems) (a : BindArgs) (certs : List Cert)
    (honce : Once certs) :
    BindsOnce u pems a certs ↔
      ∀ target_id keys, Ready u pems a certs target_id keys →
        NoOverlap u pems certs target_id keys := by
  constructor
  · intro h target_id keys hready
    have hexact := (h none).1 target_id keys hready
    rw [flatten_of_ready hready] at hexact
    exact (nodup_bindSettings_iff honce keys).mp hexact.once
  · intro hno reply
    have hexact : ∀ target_id keys, Ready u pems a certs target_id keys →
        MovesExactly u pems certs target_id keys
          (do_bind_services u pems a (some certs) reply).requests.flatten := by
      intro target_id keys hready
      rw [flatten_of_ready hready]
      exact ⟨(nodup_bindSettings_iff honce keys).mpr (hno _ _ hready), fun s => mem_bindSettings honce⟩
    refine ⟨hexact, fun hnot => (of_not_ready hnot reply).1, fun hcheck hsucceeds reply' => ?_⟩
    by_cases hready : ∃ target_id keys, Ready u pems a certs target_id keys
    · obtain ⟨target_id, keys, hready⟩ := hready
      have hexact := hexact target_id keys hready
      rw [do_bind_services_of_ready (hready.rebound _), if_pos (bindSettings_rebound hexact)]
    · simp only [not_exists] at hready
      exact absurd hsucceeds ((of_not_ready hready reply).2 hcheck)

/-- A NAS whose file service is on the certificate that it came with. -/
def factoryCert : Cert where
  id := some "old"
  common_name := some "synology"
  valid_till := none
  is_default := false
  services := [⟨"ftpd", "smbftpd", some "FTPS", false, some "root"⟩]

/-- The certificate of the domain. -/
def domainCert : Cert := ⟨some "new", some "e4e-nas.ucsd.edu", none, true, []⟩

/-- The file service is listed twice. -/
def twice : BindArgs :=
  ⟨⟨"e4e-nas.ucsd.edu", .arr [], .newest⟩, some [some ("ftpd", "smbftpd"), some ("ftpd", "smbftpd")],
    false⟩

theorem ready_twice : Ready ascii (fun _ => none) twice [factoryCert, domainCert] "new"
    [("ftpd", "smbftpd"), ("ftpd", "smbftpd")] where
  apply := rfl
  bindings := rfl
  target := ⟨domainCert, by decide +kernel, rfl⟩

/-- It is sent twice. -/
theorem listed_twice_sent_twice :
    ¬ BindsOnce ascii (fun _ => none) twice [factoryCert, domainCert] := by
  intro h
  have hexact := (h none).1 _ _ ready_twice
  rw [flatten_of_ready ready_twice] at hexact
  exact absurd hexact.once (by decide +kernel)

theorem bind_once_iff_factory :
    BindsOnce ascii (fun _ => none) twice [factoryCert, domainCert] ↔
      ∀ target_id keys,
        Ready ascii (fun _ => none) twice [factoryCert, domainCert] target_id keys →
          NoOverlap ascii (fun _ => none) [factoryCert, domainCert] target_id keys :=
  bind_once_iff ascii (fun _ => none) twice [factoryCert, domainCert] (by unfold Once; decide)

end Certificates
