import ModDNS.Profiles.Store

/-!
# The calls of the settings cache

The methods of the cache that read and write the settings of a profile. A pipeline sends all
its commands and fails with the first error among their answers.

* `ends_pipeline`: the actions of a pipeline are its commands, in order.
-/

namespace ModDNS.Profiles

open Conc

/-- A pipeline of commands on the keys of a profile. -/
def pipeline (pid : String) : List RedisCmd → ProfileFlow Unit
  | [] => pure ()
  | cmd :: cmds => do
    let first ← attempt (call (.redis pid cmd))
    let rest ← attempt (pipeline pid cmds)
    match first, rest with
    | .error e, _ => throw e
    | .ok _, .error e => throw e
    | .ok _, .ok _ => pure ()

def createOrUpdateProfileSettings (settings : ProfileSettings) : ProfileFlow Unit := do
  let storedRules ← call (.smembers settings.profileId)
  pipeline settings.profileId (settingsCmds settings storedRules)

/-- `SettingsField`. -/
structure SettingsField where
  hash : SettingsHash
  field : String
  value : FieldValue

def setProfileSettingsFields (pid : String) (fields : List SettingsField) : ProfileFlow Unit :=
  pipeline pid (fields.map fun f => .hset f.hash [(f.field, f.value)])

def addCustomRules (pid : String) (rules : List CustomRule) : ProfileFlow Unit :=
  pipeline pid (queueCustomRules rules)

def removeCustomRule (pid : String) (id : RuleID) : ProfileFlow Unit := do
  call (.redis pid (.del [.customRule id]))
  call (.redis pid (.srem [id]))

def deleteRuleHashes (pid : String) : List RuleID → ProfileFlow Unit
  | [] => pure ()
  | id :: ids => do
    call (.redis pid (.del [.customRule id]))
    deleteRuleHashes pid ids

def deleteProfileSettings (pid : String) : ProfileFlow Unit := do
  call (.redis pid (.del settingsKeys))
  let ids ← call (.smembers pid)
  deleteRuleHashes pid ids
  call (.redis pid (.del [.customRules]))

/-- `AppendBlocklistsToProfileSettings` and `AppendServicesBlockedToProfileSettings`. -/
def appendToProfileSettings (pid : String) (l : SettingsList) (ids : List String) :
    ProfileFlow Unit :=
  if ids = [] then pure () else call (.redis pid (.rpush l ids))

/-- `RemoveBlocklistsFromProfileSettings` and `RemoveServicesBlockedFromProfileSettings`. -/
def removeFromProfileSettings (pid : String) (l : SettingsList) : List String → ProfileFlow Unit
  | [] => pure ()
  | id :: ids => do
    call (.redis pid (.lrem l id))
    removeFromProfileSettings pid l ids

variable {pid : String} {cmds : List RedisCmd} {l : List profileCalls.sig.Act}
  {r : Except ServiceErr Unit}

theorem ends_pipeline (h : Ends (pipeline pid cmds).run l r) :
    l.map (·.1) = cmds.map (.redis pid ·) ∧ (r = .ok () → ∀ x ∈ l, ∃ a, x.2 = .ok a) := by
  induction cmds generalizing l r with
  | nil =>
    obtain ⟨rfl, rfl⟩ := ends_flow_pure h
    exact ⟨rfl, fun _ => List.forall_mem_nil _⟩
  | cons cmd cmds ih =>
    obtain ⟨l₁, l', first, rfl, h₁, hnext⟩ := ends_attempt_bind h
    obtain ⟨l₂, l₃, rest, rfl, h₂, hend⟩ := ends_attempt_bind hnext
    obtain rfl := ends_act h₁
    obtain ⟨hops, hok⟩ := ih h₂
    have hl₃ : l₃ = [] ∧ (r = .ok () → (∃ a, first = .ok a) ∧ rest = .ok ()) := by
      cases first with
      | error e =>
        obtain ⟨rfl, rfl⟩ := ends_throw hend
        exact ⟨rfl, nofun⟩
      | ok a =>
        cases rest with
        | error e =>
          obtain ⟨rfl, rfl⟩ := ends_throw hend
          exact ⟨rfl, nofun⟩
        | ok b =>
          obtain ⟨rfl, rfl⟩ := ends_flow_pure hend
          exact ⟨rfl, fun _ => ⟨⟨a, rfl⟩, rfl⟩⟩
    obtain ⟨rfl, hresult⟩ := hl₃
    rw [List.append_nil, List.map_append, hops]
    refine ⟨rfl, fun hr x hx => ?_⟩
    obtain ⟨⟨a, rfl⟩, rfl⟩ := hresult hr
    rcases List.mem_append.1 hx with hx | hx
    · rw [List.mem_singleton.1 hx]
      exact ⟨a, rfl⟩
    · exact hok rfl x hx

/-- The commands of a pipeline that ends without an error have all been answered. -/
theorem ends_pipeline_ok (h : Ends (pipeline pid cmds).run l (.ok ())) :
    l = cmds.map fun cmd => ⟨.redis pid cmd, .ok ()⟩ := by
  obtain ⟨hops, himp⟩ := ends_pipeline h
  have hok := himp rfl
  clear h himp
  induction cmds generalizing l with
  | nil => exact List.map_eq_nil_iff.1 hops
  | cons cmd cmds ih =>
    cases l with
    | nil => cases hops
    | cons x l =>
      rw [List.map_cons, List.map_cons, List.cons.injEq] at hops
      obtain ⟨hx, hl⟩ := List.forall_mem_cons.1 hok
      obtain ⟨o, res⟩ := x
      obtain ⟨rfl, hops⟩ := hops
      cases res with
      | error e => exact nomatch hx
      | ok a =>
        rw [ih hops hl, List.map_cons]
        rfl

theorem ends_deleteRuleHashes_ok {ids : List RuleID}
    (h : Ends (deleteRuleHashes pid ids).run l (.ok ())) :
    l = ids.map fun id => ⟨.redis pid (.del [.customRule id]), .ok ()⟩ := by
  induction ids generalizing l with
  | nil => exact (ends_flow_pure h).1
  | cons id ids ih =>
    obtain ⟨e, -, h⟩ | ⟨a, l', rfl, hrest⟩ := ends_act_bind h
    · cases h
    · rw [ih hrest]
      rfl

/-- A deletion of the settings that ends without an error has deleted all keys that it has found. -/
theorem ends_deleteProfileSettings_ok (h : Ends (deleteProfileSettings pid).run l (.ok ())) :
    ∃ ids : List RuleID, l = ⟨.redis pid (.del settingsKeys), .ok ()⟩ :: ⟨.smembers pid, .ok ids⟩ ::
      (ids.map (fun id => ⟨.redis pid (.del [.customRule id]), .ok ()⟩) ++
        [⟨.redis pid (.del [.customRules]), .ok ()⟩]) := by
  obtain ⟨e, -, h⟩ | ⟨a, l', rfl, hread⟩ := ends_act_bind h
  · cases h
  obtain ⟨e, -, h⟩ | ⟨ids, l', rfl, hhashes⟩ := ends_act_bind hread
  · cases h
  obtain ⟨e, -, h⟩ | ⟨l₁, l₂, u, rfl, h₁, h₂⟩ := ends_flow_bind hhashes
  · cases h
  refine ⟨ids, ?_⟩
  rw [ends_deleteRuleHashes_ok h₁, ends_act h₂]
  rfl

end ModDNS.Profiles
