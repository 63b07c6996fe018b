import Mathlib.Data.List.Induction
import Syndication.Proofs.Digest
import Syndication.Proofs.Service
import Syndication.Proofs.Submission.Checks

/-!
# Proofs.ApiKey — only live keys authenticate

A key lives from when it is generated until it is deleted. The ring holds exactly the tokens of the keys
that live, each under its user and its identifier, whatever has been generated and deleted before. So a
credential is accepted if it names a key that lives and brings no other token than that of the key, and
what happens to one key is not felt by another, be it of the same user or of the same identifier.

Identifiers need not be fresh for that: where one is drawn again while its key lives, no key is generated.

## Contents
* `token?_append`, `token?_delete`         — tokens of a ring
* `authenticate_eq_ok_iff`                 — credentials that are accepted
* `exec_generateKey`, `exec_insert_cases`  — keys that are generated
* `Event`, `IsLive`                        — keys that live
* `Call`, `History`, `ofCalls`             — generating and deleting keys
* `Inv`, `inv_after`, `inv_ofCalls`        — the ring and the keys that live
* `OnlyLive`, `ofCalls_onlyLive`
-/

namespace Syndication

namespace KeyRing

variable {r r' : KeyRing} {userId keyId userId' keyId' token : String}

/-! ## Tokens of a ring -/

theorem isKey_iff {k : ApiKey} : isKey userId keyId k = true ↔ k.userId = userId ∧ k.keyId = keyId := by
  rw [isKey, Bool.and_eq_true, decide_eq_true_eq, decide_eq_true_eq]

theorem any_isKey_iff : r.keys.any (isKey userId keyId) = true ↔ ∃ token, r.token? userId keyId = some token := by
  unfold token?
  rw [← Option.isSome_iff_exists, Option.isSome_map, List.find?_isSome, List.any_eq_true]

/-- A key that is added is found under its own user and identifier. -/
theorem token?_append (k : ApiKey) (hnew : r.token? k.userId k.keyId = none) :
    (⟨r.keys ++ [k]⟩ : KeyRing).token? userId keyId =
      if k.userId = userId ∧ k.keyId = keyId then some k.token else r.token? userId keyId := by
  unfold token? at hnew ⊢
  -- the new key stands last, so it is found only where no older one is
  rw [List.find?_append]
  by_cases hsame : k.userId = userId ∧ k.keyId = keyId
  · obtain ⟨rfl, rfl⟩ := hsame
    rw [Option.map_eq_none_iff] at hnew
    rw [if_pos ⟨rfl, rfl⟩, hnew, Option.none_or, List.find?_cons_of_pos (isKey_iff.mpr ⟨rfl, rfl⟩)]
    rfl
  · have hother : ¬ isKey userId keyId k = true := mt isKey_iff.mp hsame
    rw [if_neg hsame, List.find?_cons_of_neg hother, List.find?_nil, Option.or_none]

/-- A key that is deleted is not found any more, and the others are. -/
theorem token?_delete : (r.delete userId' keyId').2.token? userId keyId =
    if userId' = userId ∧ keyId' = keyId then none else r.token? userId keyId := by
  unfold token? delete
  show ((r.keys.filter (!isKey userId' keyId' ·)).find? (isKey userId keyId)).map (·.token) = _
  rw [List.find?_filter]
  by_cases hsame : userId' = userId ∧ keyId' = keyId
  · obtain ⟨rfl, rfl⟩ := hsame
    rw [if_pos ⟨rfl, rfl⟩, Option.map_eq_none_iff, List.find?_eq_none]
    intro k _
    simp
  · -- a key that is sought is none that was deleted
    have hsought : (fun k => (!isKey userId' keyId' k) && isKey userId keyId k) = isKey userId keyId := by
      funext k
      cases hkey : isKey userId keyId k with
      | false => exact Bool.and_false _
      | true =>
        obtain ⟨rfl, rfl⟩ := isKey_iff.mp hkey
        have hkept : isKey userId' keyId' k = false := by
          rw [Bool.eq_false_iff, Ne, isKey_iff]
          exact fun h => hsame ⟨h.1.symm, h.2.symm⟩
        rw [hkept]
        rfl
    rw [if_neg hsame]
    simp only [Bool.decide_and, Bool.decide_eq_true, hsought]

/-! ## Credentials -/

/-- **A credential is accepted** if it names a key of the ring, and brings no octets but those of the token. -/
theorem authenticate_eq_ok_iff (r : KeyRing) (c : Credential) :
    r.authenticate c = .ok () ↔ c.userId ≠ "" ∧ c.keyId ≠ "" ∧
      ∃ token, r.token? c.userId c.keyId = some token ∧
        ∀ given ∈ c.token, Utf8.encode given = Utf8.encode token := by
  unfold authenticate
  by_cases hempty : (c.userId.isEmpty || c.keyId.isEmpty) = true
  · rw [if_pos hempty]
    refine iff_of_false nofun ?_
    rintro ⟨huser, hkey, -⟩
    simp [huser, hkey] at hempty
  rw [if_neg hempty]
  have hnames : c.userId ≠ "" ∧ c.keyId ≠ "" := by simpa using hempty
  cases hstored : r.token? c.userId c.keyId with
  | none =>
    refine iff_of_false nofun ?_
    rintro ⟨-, -, token, hsome, -⟩
    cases hsome
  | some stored =>
    cases hgiven : c.token with
    | none => exact iff_of_true rfl ⟨hnames.1, hnames.2, stored, rfl, nofun⟩
    | some given =>
      simp only
      by_cases hequal : Digest.constantTimeEq (Utf8.encode given) (Utf8.encode stored) = true
      · rw [if_pos hequal]
        refine iff_of_true rfl ⟨hnames.1, hnames.2, stored, rfl, ?_⟩
        rintro _ ⟨⟩
        exact Digest.constantTimeEq_iff.mp hequal
      · rw [if_neg hequal]
        refine iff_of_false nofun ?_
        rintro ⟨-, -, token, hsome, hsame⟩
        obtain rfl := Option.some.inj hsome
        exact hequal (Digest.constantTimeEq_iff.mpr (hsame given rfl))

/-- Of a ring, an answer depends only on the token of the key that is named. -/
theorem authenticate_congr {c : Credential} (h : r.token? c.userId c.keyId = r'.token? c.userId c.keyId) :
    r.authenticate c = r'.authenticate c := by
  unfold authenticate
  rw [h]

/-! ## Keys that are generated -/

/-- The identifier that the next key gets. -/
def nextKeyId (s : Service) : String := s.issuer.idOf s.issuer.ids

/-- What the next key of a user is like. -/
def nextKey (s : Service) (userId : String) : ApiKey :=
  ⟨userId, nextKeyId s, s.issuer.tokenOf s.issuer.tokens, s.nowSecs⟩

/-- **Generating a key** draws an identifier and a token, and inserts a key with both. -/
theorem exec_generateKey (s : Service) (userId : String) : (Service.generateKey userId).exec s =
    if isPathSafe userId then
      (((insert (nextKey s userId)).exec s.keys).1.map fun _ =>
          ⟨userId, nextKeyId s, (nextKey s userId).token⟩,
        { s with
          issuer := { s.issuer with ids := s.issuer.ids + 1, tokens := s.issuer.tokens + 1 }
          keys := ((insert (nextKey s userId)).exec s.keys).2 })
    else (.error (.invalidInput ("invalid user id '" ++ userId ++ "'")), s) := by
  unfold Service.generateKey
  by_cases hsafe : isPathSafe userId = true
  case neg =>
    rw [if_neg hsafe, if_pos (by simpa using hsafe)]
    rfl
  rw [if_pos hsafe, if_neg (by simp [hsafe]), Effect.exec_bind_ok (Service.exec_drawId s),
    Effect.exec_bind_ok (Service.exec_drawToken _), Effect.exec_bind_ok (Effect.exec_get _),
    bind_pure_comp, Effect.exec_map_eq, Service.exec_onKeys]
  rfl

/-- A key is inserted unless its user has one with its identifier; then the ring stays as it is. -/
theorem exec_insert_cases (r : KeyRing) (k : ApiKey) :
    (r.token? k.userId k.keyId = none ∧ (insert k).exec r = (.ok (), ⟨r.keys ++ [k]⟩)) ∨
      ∃ e token, r.token? k.userId k.keyId = some token ∧ (insert k).exec r = (.error e, r) := by
  unfold insert
  rw [Effect.exec_ofFun]
  by_cases hold : r.keys.any (isKey k.userId k.keyId) = true
  · obtain ⟨token, htoken⟩ := any_isKey_iff.mp hold
    rw [if_pos hold]
    exact .inr ⟨_, token, htoken, rfl⟩
  · rw [if_neg hold]
    refine .inl ⟨?_, rfl⟩
    rw [Option.eq_none_iff_forall_ne_some]
    exact fun token htoken => hold (any_isKey_iff.mpr ⟨token, htoken⟩)

/-! ## Keys that live -/

/-- What was done to a key: somebody was given it, or it was deleted, whether it was there or not. -/
inductive Event where
  | generated (k : GeneratedKey)
  | deleted (userId keyId : String)
  deriving DecidableEq

/-- **The key lives**, with this token: it was generated for the user and not deleted since. The latest event
comes first. -/
def IsLive (events : List Event) (userId keyId token : String) : Prop :=
  ∃ later earlier, events = later ++ .generated ⟨userId, keyId, token⟩ :: earlier ∧
    .deleted userId keyId ∉ later

variable {events : List Event}

theorem not_isLive_nil : ¬ IsLive [] userId keyId token := by
  rintro ⟨later, earlier, hsplit, -⟩
  simp at hsplit

/-- After one more event, a key lives if it has just been generated, or lived and was not deleted. -/
theorem isLive_cons_iff (e : Event) : IsLive (e :: events) userId keyId token ↔
    e = .generated ⟨userId, keyId, token⟩ ∨ (e ≠ .deleted userId keyId ∧ IsLive events userId keyId token) := by
  constructor
  · rintro ⟨later, earlier, hsplit, hkept⟩
    cases later with
    | nil => exact .inl (List.cons.inj hsplit).1
    | cons first later =>
      rw [List.cons_append, List.cons.injEq] at hsplit
      obtain ⟨rfl, rfl⟩ := hsplit
      rw [List.mem_cons, not_or] at hkept
      exact .inr ⟨Ne.symm hkept.1, later, earlier, rfl, hkept.2⟩
  · rintro (rfl | ⟨hkept, later, earlier, rfl, hlater⟩)
    · exact ⟨[], events, rfl, List.not_mem_nil⟩
    · refine ⟨e :: later, earlier, rfl, ?_⟩
      rw [List.mem_cons, not_or]
      exact ⟨Ne.symm hkept, hlater⟩

/-! ## Generating and deleting keys -/

/-- A call. -/
inductive Call where
  | generate (userId : String)
  | delete (userId keyId : String)
  /-- Anything else that the service does; the keys stay as they are. -/
  | work (s : Service)

/-- The service, and what was done to its keys. -/
structure History where
  service : Service
  events : List Event := []

namespace History

variable {h : History}

/-- One more call. -/
def after (h : History) : Call → History
  | .generate userId =>
    match (Service.generateKey userId).exec h.service with
    | (.ok k, s) => ⟨s, .generated k :: h.events⟩
    | (.error _, s) => { h with service := s }
  | .delete userId keyId =>
    ⟨((Service.changeKeys (·.delete userId keyId)).exec h.service).2, .deleted userId keyId :: h.events⟩
  | .work s => { h with service := { s with keys := h.service.keys } }

/-- What any calls lead to, from a service without keys. -/
def ofCalls (start : Service) (calls : List Call) : History :=
  calls.foldl after { service := { start with keys := {} } }

/-- The user and the key that a call is about. -/
def about? (h : History) : Call → Option (String × String)
  | .generate userId => some (userId, nextKeyId h.service)
  | .delete userId keyId => some (userId, keyId)
  | .work _ => none

/-- **The invariant**: the ring holds the tokens of the keys that live, and no others. -/
def Inv (h : History) : Prop := ∀ userId keyId token,
  h.service.keys.token? userId keyId = some token ↔ IsLive h.events userId keyId token

/-- What a generation comes to: the ring has one key more, or is as it was. -/
theorem after_generate_cases (h : History) (userId : String) :
    (∃ token createdAt, isPathSafe userId = true ∧ h.service.keys.token? userId (nextKeyId h.service) = none ∧
      (h.after (.generate userId)).events = .generated ⟨userId, nextKeyId h.service, token⟩ :: h.events ∧
      (h.after (.generate userId)).service.keys =
        ⟨h.service.keys.keys ++ [⟨userId, nextKeyId h.service, token, createdAt⟩]⟩) ∨
      ((isPathSafe userId = true → ∃ token, h.service.keys.token? userId (nextKeyId h.service) = some token) ∧
        (h.after (.generate userId)).events = h.events ∧
        (h.after (.generate userId)).service.keys = h.service.keys) := by
  simp only [after, exec_generateKey]
  by_cases hsafe : isPathSafe userId = true
  case neg =>
    rw [if_neg hsafe]
    exact .inr ⟨fun h => absurd h hsafe, rfl, rfl⟩
  rw [if_pos hsafe]
  rcases exec_insert_cases h.service.keys (nextKey h.service userId) with
    ⟨hnew, hexec⟩ | ⟨e, token, hold, hexec⟩ <;> rw [hexec]
  · exact .inl ⟨_, _, hsafe, hnew, rfl, rfl⟩
  · exact .inr ⟨fun _ => ⟨token, hold⟩, rfl, rfl⟩

theorem keys_after_delete (h : History) (userId keyId : String) :
    (h.after (.delete userId keyId)).service.keys = (h.service.keys.delete userId keyId).2 := by
  show ((Service.changeKeys (·.delete userId keyId)).exec h.service).2.keys = _
  rw [Service.exec_changeKeys]

/-- One more call keeps the ring at the tokens of the keys that live. -/
theorem inv_after (h : History) (hinv : h.Inv) (call : Call) : (h.after call).Inv := by
  intro userId keyId token
  cases call with
  | generate owner =>
    rcases h.after_generate_cases owner with ⟨fresh, createdAt, -, hnew, hevents, hkeys⟩ | ⟨-, hevents, hkeys⟩
    · rw [hevents, hkeys, token?_append _ hnew, isLive_cons_iff, ← hinv]
      -- the pair was free, so the fresh token is the only one that it can have
      by_cases hsame : owner = userId ∧ nextKeyId h.service = keyId
      · obtain ⟨rfl, rfl⟩ := hsame
        simp [hnew, eq_comm]
      · rw [if_neg hsame]
        constructor
        · exact fun htoken => .inr ⟨nofun, htoken⟩
        · rintro (heq | ⟨-, htoken⟩)
          · cases heq
            exact absurd ⟨rfl, rfl⟩ hsame
          · exact htoken
    · rw [hevents, hkeys, hinv]
  | delete owner key =>
    show _ ↔ IsLive (.deleted owner key :: h.events) userId keyId token
    rw [keys_after_delete, token?_delete, isLive_cons_iff, ← hinv]
    by_cases hsame : owner = userId ∧ key = keyId
    · obtain ⟨rfl, rfl⟩ := hsame
      simp
    · rw [if_neg hsame]
      constructor
      · refine fun htoken => .inr ⟨?_, htoken⟩
        rintro ⟨⟩
        exact hsame ⟨rfl, rfl⟩
      · rintro (heq | ⟨-, htoken⟩)
        · cases heq
        · exact htoken
  | work s => exact hinv userId keyId token

/-- **After any calls** the ring holds the tokens of the keys that live. -/
theorem inv_ofCalls (start : Service) (calls : List Call) : (ofCalls start calls).Inv := by
  -- from the last call backwards, since the history before it is what it changes
  induction calls using List.reverseRecOn with
  | nil =>
    intro userId keyId token
    exact iff_of_false nofun not_isLive_nil
  | append_singleton calls call ih =>
    unfold ofCalls at ih ⊢
    rw [List.foldl_append]
    exact inv_after _ ih call

/-- A call leaves the tokens of all keys but the one that it is about. -/
theorem token?_after (h : History) {call : Call} (hother : h.about? call ≠ some (userId, keyId)) :
    (h.after call).service.keys.token? userId keyId = h.service.keys.token? userId keyId := by
  cases call with
  | generate owner =>
    rcases h.after_generate_cases owner with ⟨fresh, createdAt, -, hnew, -, hkeys⟩ | ⟨-, -, hkeys⟩
    · rw [hkeys, token?_append _ hnew, if_neg]
      rintro ⟨rfl, rfl⟩
      exact hother rfl
    · rw [hkeys]
  | delete owner key =>
    rw [keys_after_delete, token?_delete, if_neg]
    rintro ⟨rfl, rfl⟩
    exact hother rfl
  | work s => rfl

/-- **Only live keys authenticate.** -/
structure OnlyLive (h : History) : Prop where
  /-- A credential is accepted if its names are not empty, the key lives, and a token that it brings is that
  of the key, octet by octet. -/
  accepts : ∀ c, h.service.keys.authenticate c = .ok () ↔ c.userId ≠ "" ∧ c.keyId ≠ "" ∧
    ∃ token, IsLive h.events c.userId c.keyId token ∧
      ∀ given ∈ c.token, Utf8.encode given = Utf8.encode token
  /-- Otherwise it is unauthorized. -/
  refuses : ∀ c, h.service.keys.authenticate c ≠ .ok () →
    ∃ detail, h.service.keys.authenticate c = .error (.unauthorized detail)
  /-- A call about another key does not change the answer. -/
  apart : ∀ c call, h.about? call ≠ some (c.userId, c.keyId) →
    (h.after call).service.keys.authenticate c = h.service.keys.authenticate c
  /-- A key is generated for every user that can stand in a path, unless its identifier is one of a key of
  this user that lives; then, and for other users, nothing happens. -/
  generates : ∀ userId, ((h.after (.generate userId)).events ≠ h.events ↔ isPathSafe userId = true ∧
    ∀ token, ¬ IsLive h.events userId (nextKeyId h.service) token)

/-- **Whatever was generated and deleted, only the keys that live authenticate**, and each stands for
itself. -/
theorem ofCalls_onlyLive (start : Service) (calls : List Call) : (ofCalls start calls).OnlyLive := by
  have hinv := inv_ofCalls start calls
  generalize ofCalls start calls = h at hinv
  refine ⟨?_, ?_, ?_, ?_⟩
  · intro c
    rw [authenticate_eq_ok_iff]
    simp only [hinv c.userId c.keyId]
  · intro c hrefused
    cases hanswer : h.service.keys.authenticate c with
    | ok u => exact absurd hanswer hrefused
    | error e =>
      obtain ⟨detail, rfl⟩ := Submission.authenticate_error hanswer
      exact ⟨detail, rfl⟩
  · intro c call hother
    exact authenticate_congr (h.token?_after hother)
  · intro userId
    simp only [← hinv userId (nextKeyId h.service)]
    rcases h.after_generate_cases userId with ⟨fresh, createdAt, hsafe, hnew, hevents, -⟩ | ⟨htaken, hevents, -⟩
    · rw [hevents, hnew]
      exact iff_of_true (List.cons_ne_self _ _) ⟨hsafe, nofun⟩
    · rw [hevents]
      refine iff_of_false (fun hne => hne rfl) ?_
      rintro ⟨hsafe, hnone⟩
      obtain ⟨token, htoken⟩ := htaken hsafe
      exact hnone token htoken

-- the key of "ada" is deleted; that of "bob" stands with its own token, and for nobody else
example :
    let start := Service.started {} []
    let keys := (ofCalls start
      [.generate "ada", .generate "bob", .delete "ada" (start.issuer.idOf 0)]).service.keys
    keys.authenticate ⟨"ada", start.issuer.idOf 0, none⟩ = .error (.unauthorized "unknown api key") ∧
      keys.authenticate ⟨"ada", start.issuer.idOf 1, none⟩ = .error (.unauthorized "unknown api key") ∧
      keys.authenticate ⟨"bob", start.issuer.idOf 1, some ""⟩ = .error (.unauthorized "invalid api key") ∧
      keys.authenticate ⟨"bob", start.issuer.idOf 1, some (start.issuer.tokenOf 1)⟩ = .ok () :=
  ⟨rfl, rfl, rfl, rfl⟩

end History
end KeyRing
end Syndication
