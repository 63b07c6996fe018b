import Mathlib.Data.List.Nodup
import Syndication.Platform.Registry
import Syndication.Proofs.Config
import Syndication.Proofs.Effect

/-!
# Proofs.Platform.Registry — an accepted configuration gives exactly its platforms

Platforms are registered one after the other, and one that is registered takes the place of another with
its identifier. The checks of a configuration leave no two with one identifier, so each is added behind
those before it and none is lost. What the checks cannot see is whether a secret is there: the first
platform that lacks the secret of its address is why there is no registry at all.

## Contents
* `Describes`, `LacksSecret`, `platformOf_cases` — one platform
* `register_of_new`                              — platforms that are added
* `Registered`, `registered_registerAll`         — platforms one after the other
* `IsRegistryOf`, `isRegistryOf_of_described`    — registries with exactly the platforms of a list
* `ofConfig_exact`
-/

namespace Syndication.PlatformRegistry

variable {secrets : SecretStore} {network : String → Endpoint} {r : PlatformRegistry}
  {p : PlatformConfig} {ps : List PlatformConfig} {q : Platform} {qs : List Platform}

/-! ## One platform -/

/-- **What a configured platform is to become**: a mock, or a hook to the address that is kept as a secret,
with the time that is configured; in each case under the configured identifier. -/
inductive Describes (secrets : SecretStore) (network : String → Endpoint) (p : PlatformConfig) :
    Platform → Prop where
  | mock (kind : p.kind = .mock) : Describes secrets network p (.mock { id := p.id })
  | hook {name address : String} (kind : p.kind = .http) (named : p.urlSecret = some name)
      (known : secrets.lookup? name = some address) :
      Describes secrets network p
        (.hook { id := p.id, endpoint := network address, timeout := Span.ofSecs p.timeoutSecs })

theorem Describes.id_eq (h : Describes secrets network p q) : q.id = p.id := by
  cases h <;> rfl

/-- The platform is reached by requests, and the secret of its address is not there. -/
structure LacksSecret (secrets : SecretStore) (p : PlatformConfig) (name : String) : Prop where
  kind : p.kind = .http
  named : p.urlSecret = some name
  missing : secrets.lookup? name = none

/-- The failure that names a secret. -/
def secretMissing (name : String) : Error := .config (.missingField ("secret '" ++ name ++ "'"))

/-- A platform is made, unless the secret of its address is not there. -/
theorem platformOf_cases (secrets : SecretStore) (network : String → Endpoint)
    (haddressed : p.kind = .http → p.urlSecret.isSome = true) :
    (∃ q, platformOf secrets network p = .ok q ∧ Describes secrets network p q ∧
      ∀ name, ¬ LacksSecret secrets p name) ∨
      ∃ name, platformOf secrets network p = .error (secretMissing name) ∧ LacksSecret secrets p name := by
  unfold platformOf
  cases hkind : p.kind with
  | mock =>
    refine .inl ⟨_, rfl, .mock hkind, fun name h => ?_⟩
    have hhttp := h.kind
    rw [hkind] at hhttp
    cases hhttp
  | http =>
    obtain ⟨name, hnamed⟩ := Option.isSome_iff_exists.mp (haddressed hkind)
    simp only [hnamed]
    cases hlookup : secrets.lookup? name with
    | none => exact .inr ⟨name, rfl, hkind, hnamed, hlookup⟩
    | some address =>
      refine .inl ⟨_, rfl, .hook hkind hnamed hlookup, fun other h => ?_⟩
      obtain rfl : name = other := Option.some.inj (hnamed.symm.trans h.named)
      rw [h.missing] at hlookup
      cases hlookup

/-! ## Platforms one after the other -/

/-- A platform with a new identifier is added, and the others stay where they are. -/
theorem register_of_new (h : q.id ∉ r.platforms.map (·.id)) : r.register q = ⟨r.platforms ++ [q]⟩ := by
  unfold register
  rw [if_neg]
  intro hany
  obtain ⟨other, hother, hid⟩ := List.any_eq_true.mp hany
  exact h (List.mem_map.mpr ⟨other, hother, of_decide_eq_true hid⟩)

/-- **What registering platforms comes to**: all of them are added in their order, or the first one that
lacks its secret is why none is. -/
inductive Registered (secrets : SecretStore) (network : String → Endpoint) (r : PlatformRegistry)
    (ps : List PlatformConfig) : Except Error PlatformRegistry → Prop where
  | all {qs : List Platform} (described : List.Forall₂ (Describes secrets network) ps qs)
      (known : ∀ p ∈ ps, ∀ name, ¬ LacksSecret secrets p name) :
      Registered secrets network r ps (.ok ⟨r.platforms ++ qs⟩)
  | none {before after : List PlatformConfig} {p : PlatformConfig} {name : String}
      (split : ps = before ++ p :: after) (known : ∀ b ∈ before, ∀ name, ¬ LacksSecret secrets b name)
      (lacks : LacksSecret secrets p name) :
      Registered secrets network r ps (.error (secretMissing name))

/-- By induction on the platforms: the identifiers of those that are registered and of those to come
differ, so the next one is added. -/
theorem registered_registerAll (hdistinct : (r.platforms.map (·.id) ++ ps.map (·.id)).Nodup)
    (haddressed : ∀ p ∈ ps, p.kind = .http → p.urlSecret.isSome = true) :
    Registered secrets network r ps (registerAll secrets network r ps) := by
  induction ps generalizing r with
  | nil =>
    have hall : Registered secrets network r [] (.ok ⟨r.platforms ++ []⟩) := .all .nil nofun
    rwa [List.append_nil] at hall
  | cons p ps ih =>
    rw [List.forall_mem_cons] at haddressed
    unfold registerAll
    rcases platformOf_cases secrets network haddressed.1 with
      ⟨q, hmade, hdescribes, hknown⟩ | ⟨name, hmade, hlacks⟩
    · have hid : q.id = p.id := hdescribes.id_eq
      have hnew : q.id ∉ r.platforms.map (·.id) := by
        rw [hid]
        exact fun hmem => (List.nodup_append.mp hdistinct).2.2 _ hmem _ List.mem_cons_self rfl
      have hrest : ((r.platforms ++ [q]).map (·.id) ++ ps.map (·.id)).Nodup := by
        rw [List.map_append, List.map_singleton, hid, List.append_assoc]
        exact hdistinct
      rw [hmade]
      show Registered secrets network r (p :: ps) (registerAll secrets network (r.register q) ps)
      -- it is new, so it takes nobody's place, and the others go behind it
      rw [register_of_new hnew]
      have hlater := ih (r := ⟨r.platforms ++ [q]⟩) hrest haddressed.2
      generalize registerAll secrets network ⟨r.platforms ++ [q]⟩ ps = answer at hlater ⊢
      cases hlater with
      | all hdescribed hothers =>
        show Registered secrets network r (p :: ps) (.ok ⟨r.platforms ++ [q] ++ _⟩)
        rw [List.append_assoc]
        exact .all (.cons hdescribes hdescribed) (List.forall_mem_cons.mpr ⟨hknown, hothers⟩)
      | none hsplit hbefore hlacks =>
        exact .none (congrArg (p :: ·) hsplit) (List.forall_mem_cons.mpr ⟨hknown, hbefore⟩) hlacks
    · rw [hmade]
      have hnothing : ∀ b ∈ ([] : List PlatformConfig), ∀ name, ¬ LacksSecret secrets b name := nofun
      exact .none rfl hnothing hlacks

/-! ## Registries -/

/-- **The registry holds exactly these platforms**: in their order, each under its own identifier, no two
under one, and nothing else is found. -/
structure IsRegistryOf (secrets : SecretStore) (network : String → Endpoint) (ps : List PlatformConfig)
    (r : PlatformRegistry) : Prop where
  described : List.Forall₂ (Describes secrets network) ps r.platforms
  ids : r.platforms.map (·.id) = ps.map (·.id)
  distinct : (r.platforms.map (·.id)).Nodup
  found : ∀ p ∈ ps, ∃ q, r.get? p.id = some q ∧ Describes secrets network p q
  only : ∀ id q, r.get? id = some q → q.id = id ∧ ∃ p ∈ ps, p.id = id ∧ Describes secrets network p q

theorem ids_of_described (h : List.Forall₂ (Describes secrets network) ps qs) :
    qs.map (·.id) = ps.map (·.id) := by
  induction h with
  | nil => rfl
  | cons hhead _ ih => rw [List.map_cons, List.map_cons, hhead.id_eq, ih]

/-- Of two lists that are related item by item, each item of the first has one in the second. -/
theorem exists_related {α β : Type} {R : α → β → Prop} {xs : List α} {ys : List β} {x : α}
    (h : List.Forall₂ R xs ys) (hx : x ∈ xs) : ∃ y ∈ ys, R x y := by
  induction h with
  | nil => cases hx
  | cons hhead _ ih =>
    rcases List.mem_cons.mp hx with rfl | hx
    · exact ⟨_, List.mem_cons_self, hhead⟩
    · obtain ⟨y, hy, hrelated⟩ := ih hx
      exact ⟨y, List.mem_cons_of_mem _ hy, hrelated⟩

/-- Each platform that was made was configured. -/
theorem exists_configured (h : List.Forall₂ (Describes secrets network) ps qs) (hq : q ∈ qs) :
    ∃ p ∈ ps, Describes secrets network p q := by
  have hflip : List.Forall₂ (flip (Describes secrets network)) qs ps := List.Forall₂.flip h
  exact exists_related hflip hq

/-- Of platforms whose identifiers differ, the one under an identifier is found. -/
theorem get?_eq_some_iff (hdistinct : (r.platforms.map (·.id)).Nodup) {id : String} :
    r.get? id = some q ↔ q ∈ r.platforms ∧ q.id = id := by
  unfold get?
  constructor
  · intro hfind
    exact ⟨List.mem_of_find?_eq_some hfind, by simpa using List.find?_some hfind⟩
  · rintro ⟨hq, rfl⟩
    cases hfind : r.platforms.find? (·.id = q.id) with
    | none => exact absurd (decide_eq_true rfl) (List.find?_eq_none.mp hfind q hq)
    | some other =>
      have hid : other.id = q.id := by simpa using List.find?_some hfind
      exact congrArg some (List.inj_on_of_nodup_map hdistinct (List.mem_of_find?_eq_some hfind) hq hid)

/-- Platforms that were made of configured ones with different identifiers. -/
theorem isRegistryOf_of_described (h : List.Forall₂ (Describes secrets network) ps r.platforms)
    (hdistinct : (ps.map (·.id)).Nodup) : IsRegistryOf secrets network ps r := by
  have hids := ids_of_described h
  have hunique : (r.platforms.map (·.id)).Nodup := hids ▸ hdistinct
  refine ⟨h, hids, hunique, ?_, ?_⟩
  · intro p hp
    obtain ⟨q, hq, hdescribes⟩ := exists_related h hp
    exact ⟨q, (get?_eq_some_iff hunique).mpr ⟨hq, hdescribes.id_eq⟩, hdescribes⟩
  · intro id q hget
    obtain ⟨hq, hid⟩ := (get?_eq_some_iff hunique).mp hget
    obtain ⟨p, hp, hdescribes⟩ := exists_configured h hq
    exact ⟨hid, p, hp, hdescribes.id_eq.symm.trans hid, hdescribes⟩

/-- **An accepted configuration gives exactly its platforms and safe settings.** There is no registry if and
only if a platform lacks the secret of its address, and the failure names the secret of the first one that
does. Otherwise the registry holds exactly the configured platforms, whose identifiers can stand in keys.
The settings are safe to work with. -/
theorem ofConfig_exact {text : String} {c : Config} (h : Config.ofToml? text = .ok c)
    (secrets : SecretStore) (network : String → Endpoint) :
    ((∃ e, ofConfig c secrets network = .error e) ↔ ∃ p ∈ c.platforms, ∃ name, LacksSecret secrets p name) ∧
      (∀ e, ofConfig c secrets network = .error e → ∃ before p after name,
        c.platforms = before ++ p :: after ∧ (∀ b ∈ before, ∀ name, ¬ LacksSecret secrets b name) ∧
          LacksSecret secrets p name ∧ e = .config (.missingField ("secret '" ++ name ++ "'"))) ∧
      ((∀ p ∈ c.platforms, ∀ name, ¬ LacksSecret secrets p name) →
        ∃ r, ofConfig c secrets network = .ok r ∧ IsRegistryOf secrets network c.platforms r ∧
          ∀ q ∈ r.platforms, isPathSafe q.id = true) ∧
      c.queue.settings.IsSafe c.platforms := by
  obtain ⟨-, husable⟩ := (Config.ofToml?_eq_ok_iff text c).mp h
  have hregistered : Registered secrets network {} c.platforms (ofConfig c secrets network) :=
    registered_registerAll husable.distinct fun p hp => (husable.platforms p hp).addressed
  refine ⟨?_, ?_, ?_, husable.settings⟩
  · generalize ofConfig c secrets network = answer at hregistered
    cases hregistered with
    | all hdescribed hknown =>
      refine iff_of_false nofun ?_
      rintro ⟨p, hp, name, hlacks⟩
      exact hknown p hp name hlacks
    | none hsplit hbefore hlacks =>
      refine iff_of_true ⟨_, rfl⟩ ⟨_, ?_, _, hlacks⟩
      rw [hsplit]
      exact List.mem_append_right _ List.mem_cons_self
  · intro e herror
    rw [herror] at hregistered
    cases hregistered with
    | none hsplit hbefore hlacks => exact ⟨_, _, _, _, hsplit, hbefore, hlacks, rfl⟩
  · intro hknown
    generalize ofConfig c secrets network = answer at hregistered
    cases hregistered with
    | all hdescribed _ =>
      refine ⟨_, rfl, isRegistryOf_of_described hdescribed husable.distinct, fun q hq => ?_⟩
      obtain ⟨p, hp, hdescribes⟩ := exists_configured hdescribed hq
      rw [hdescribes.id_eq]
      exact (husable.platforms p hp).safe
    | none hsplit _ hlacks =>
      refine absurd hlacks (hknown _ ?_ _)
      rw [hsplit]
      exact List.mem_append_right _ List.mem_cons_self

/-! ## A hook and a mock -/

/-- A document with a platform that is reached by requests and one that posts nowhere. -/
def hookAndMockText : String :=
  "[[platforms]]\nid = \"blog\"\nkind = \"http\"\nurl_secret = \"hook\"\n\n[[platforms]]\nid = \"wall\"\nkind = \"mock\"\n"

/-- The configuration that the document gives. -/
def hookAndMock : Config where
  platforms := [⟨"blog", .http, some "hook", 30⟩, ⟨"wall", .mock, none, 30⟩]

/-- Where the secret is not there, there is no registry, not even one with the mock; where it is, the
registry holds both. -/
theorem ofConfig_exact_hookAndMock :
    Config.ofToml? hookAndMockText = .ok hookAndMock ∧
      (∃ e, ofConfig hookAndMock (.fixed []) (fun _ => .unreachable) = .error e) ∧
      (∃ r, ofConfig hookAndMock (.fixed [("hook", "http://blog")]) (fun _ => .unreachable) = .ok r ∧
        r.platforms.map (·.id) = ["blog", "wall"]) ∧
      hookAndMock.queue.settings.IsSafe hookAndMock.platforms := by
  have hread : (Config.ofToml? hookAndMockText).toOption = some hookAndMock := by decide +kernel
  have haccepted : Config.ofToml? hookAndMockText = .ok hookAndMock := Effect.toOption_eq_some.mp hread
  obtain ⟨hfails, -, -, hsafe⟩ := ofConfig_exact haccepted (.fixed []) fun _ => .unreachable
  obtain ⟨-, -, hholds, -⟩ :=
    ofConfig_exact haccepted (.fixed [("hook", "http://blog")]) fun _ => .unreachable
  have hknown : ∀ p ∈ hookAndMock.platforms, ∀ name,
      ¬ LacksSecret (.fixed [("hook", "http://blog")]) p name := by
    intro p hp name hlacks
    rcases List.mem_pair.mp hp with rfl | rfl
    · obtain rfl := Option.some.inj hlacks.named
      exact absurd hlacks.missing (by decide)
    · cases hlacks.kind
  refine ⟨haccepted, hfails.mpr ?_, ?_, hsafe⟩
  · exact ⟨_, List.mem_cons_self, "hook", rfl, rfl, rfl⟩
  · obtain ⟨r, hok, hregistry, -⟩ := hholds hknown
    exact ⟨r, hok, hregistry.ids⟩

end Syndication.PlatformRegistry
