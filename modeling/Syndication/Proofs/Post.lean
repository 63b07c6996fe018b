import Syndication.Post
import Syndication.Proofs.Job.Payload
import Syndication.Proofs.Json.Members

/-!
# Proofs.Post — requests of two generations of clients

However a client writes a request, the request that is read is the one that was meant: the members may
stand in any order, each under any one of its names, those that have their default may be missing, and
members that nobody knows may stand between them. An object in which a known member stands twice is no
request, whatever two of its names it has.

## Contents
* `Writes`, `required_of_writes`, `withDefault_of_writes`   — one member
* `Credential.IsWrittenAs`, `Credential.ofJson?_of_isWrittenAs`
* `PostRequest.IsWrittenAs`, `PostRequest.ofJson?_of_isWrittenAs`
* `PostRequest.RepeatsMember`, `PostRequest.ofJson?_of_repeatsMember`
* `PostRequest.reads_anySpelling`, `reads_anySpelling_legacy`
-/

namespace Syndication

open Json (Members)
open Json.Members (under)

/-! ## One member -/

/-- An object writes a member: it has one value under the names of the member, and that means what the
member holds; or it has none, and the member holds its default. -/
def Writes (ms : List (Option String × Json)) (aliases : List String) (means : Json → Prop)
    (isDefault : Prop) : Prop :=
  (∃ j, under aliases ms = [j] ∧ means j) ∨ (isDefault ∧ under aliases ms = [])

section

variable {ms : List (Option String × Json)} {aliases : List String} {means : Json → Prop}
  {isDefault : Prop} {α : Type} {read : Json → Option α} {a : α} {m : Members} {i : Nat}

theorem Writes.length_le (h : Writes ms aliases means isDefault) : (under aliases ms).length ≤ 1 := by
  rcases h with ⟨j, hj, -⟩ | ⟨-, hnone⟩
  · rw [hj]
    exact Nat.le_refl 1
  · rw [hnone]
    exact Nat.zero_le 1

/-- A member that may not be missing is read as what it says. -/
theorem required_of_writes (hget : m.get? i = (under aliases ms).head?)
    (h : Writes ms aliases means False) (hread : ∀ j, means j → read j = some a) :
    m.required i read = some a := by
  rcases h with ⟨j, hj, hmeans⟩ | ⟨hfalse, -⟩
  · rw [Members.required, hget, hj]
    exact hread j hmeans
  · exact hfalse.elim

/-- A member that has a default is read as what it says, or as its default. -/
theorem withDefault_of_writes (hget : m.get? i = (under aliases ms).head?)
    (h : Writes ms aliases means isDefault) {default : α} (hread : ∀ j, means j → read j = some a)
    (hdefault : isDefault → default = a) : m.withDefault i read default = some a := by
  rcases h with ⟨j, hj, hmeans⟩ | ⟨hdef, hnone⟩
  · rw [Members.withDefault, hget, hj]
    exact hread j hmeans
  · rw [Members.withDefault, hget, hnone, ← hdefault hdef]
    rfl

end

/-! ## Credentials -/

namespace Credential

/-- An object writes a credential. -/
structure IsWrittenAs (c : Credential) (ms : List (Option String × Json)) : Prop where
  keys : ∀ m ∈ ms, m.1.isSome = true
  userId : Writes ms ["userId", "UserID", "userID"] (· = .text c.userId) False
  keyId : Writes ms ["keyId", "ID", "id"] (· = .text c.keyId) False
  token : Writes ms ["apiKey", "APIKey"] (· = .orNull .text c.token) (c.token = none)

theorem distinct_names : Members.Distinct names := by decide

/-- **A credential is read** from whatever object writes it. -/
theorem ofJson?_of_isWrittenAs {c : Credential} {ms : List (Option String × Json)}
    (h : c.IsWrittenAs ms) : ofJson? (.object ms) = some c := by
  have honce : ∀ aliases ∈ names, (under aliases ms).length ≤ 1 := by
    simp only [names, List.mem_cons, List.not_mem_nil, or_false, forall_eq_or_imp, forall_eq]
    exact ⟨h.userId.length_le, h.keyId.length_le, h.token.length_le⟩
  obtain ⟨m, hm⟩ := Members.exists_of_once distinct_names h.keys honce
  have hget : ∀ i aliases, names[i]? = some aliases → m.get? i = (under aliases ms).head? :=
    fun i aliases hi => (Members.get?_of_eq_some distinct_names hm hi).2
  have huser : m.required 0 Json.asText? = some c.userId :=
    required_of_writes (hget 0 _ rfl) h.userId fun j hj => hj ▸ rfl
  have hkey : m.required 1 Json.asText? = some c.keyId :=
    required_of_writes (hget 1 _ rfl) h.keyId fun j hj => hj ▸ rfl
  have htoken : m.optional 2 Json.asText? = some c.token := by
    refine withDefault_of_writes (hget 2 _ rfl) h.token (fun j hj => ?_) Eq.symm
    rw [hj]
    cases c.token <;> rfl
  simp only [ofJson?, hm, huser, hkey, htoken, Option.bind_eq_bind, Option.bind_some]
  rfl

/-- What is written for a credential writes it, under the first name of each member. -/
theorem isWrittenAs_toJson (c : Credential) : ∃ ms, c.toJson = .object ms ∧ c.IsWrittenAs ms := by
  refine ⟨_, rfl, ?_⟩
  cases htoken : c.token with
  | none =>
    exact ⟨by simp [Json.member?], .inl ⟨_, rfl, rfl⟩, .inl ⟨_, rfl, rfl⟩, .inr ⟨htoken, rfl⟩⟩
  | some token =>
    exact ⟨by simp [Json.member?], .inl ⟨_, rfl, rfl⟩, .inl ⟨_, rfl, rfl⟩,
      .inl ⟨_, rfl, by rw [htoken]; rfl⟩⟩

end Credential

/-! ## Requests -/

namespace PostRequest

/-- An object writes a request. The instant may stand in any notation that is read as it. -/
structure IsWrittenAs (r : PostRequest) (ms : List (Option String × Json)) : Prop where
  keys : ∀ m ∈ ms, m.1.isSome = true
  credential : Writes ms ["apiKey", "APIKey"]
    (fun j => ∃ cs, j = .object cs ∧ r.credential.IsWrittenAs cs) False
  targets : Writes ms ["targetPlatforms", "TargetPlatforms"] (· = .texts r.targets) (r.targets = [])
  media : Writes ms ["media", "Media"] (· = .texts r.media) (r.media = [])
  title : Writes ms ["title", "Title"] (· = .text r.title) (r.title = "")
  description : Writes ms ["description", "Description"] (· = .text r.description) (r.description = "")
  htmlDescription : Writes ms ["htmlDescription", "HTMLDescription"] (· = .text r.htmlDescription)
    (r.htmlDescription = "")
  tags : Writes ms ["tags", "Tags"] (· = .texts r.tags) (r.tags = [])
  postAt : Writes ms ["postAt", "PostAt"]
    (fun j => j = .orNull Instant.toJson r.postAt ∨
      ∃ s t, j = .text s ∧ Stamp.loose? s = some t ∧ r.postAt = some t) (r.postAt = none)

theorem distinct_names : Members.Distinct names := by decide

/-- **A request is read** from whatever object writes it. -/
theorem ofJson?_of_isWrittenAs {r : PostRequest} {ms : List (Option String × Json)}
    (hheld : ∀ t ∈ r.postAt, t.IsHeld) (h : r.IsWrittenAs ms) : ofJson? (.object ms) = some r := by
  have honce : ∀ aliases ∈ names, (under aliases ms).length ≤ 1 := by
    simp only [names, List.mem_cons, List.not_mem_nil, or_false, forall_eq_or_imp, forall_eq]
    exact ⟨h.credential.length_le, h.targets.length_le, h.media.length_le, h.title.length_le,
      h.description.length_le, h.htmlDescription.length_le, h.tags.length_le, h.postAt.length_le⟩
  obtain ⟨m, hm⟩ := Members.exists_of_once distinct_names h.keys honce
  have hget : ∀ i aliases, names[i]? = some aliases → m.get? i = (under aliases ms).head? :=
    fun i aliases hi => (Members.get?_of_eq_some distinct_names hm hi).2
  have hcredential : m.required 0 Credential.ofJson? = some r.credential := by
    refine required_of_writes (hget 0 _ rfl) h.credential ?_
    rintro j ⟨cs, rfl, hcs⟩
    exact Credential.ofJson?_of_isWrittenAs hcs
  have hlist : ∀ (i : Nat) {aliases : List String} {texts : List String},
      names[i]? = some aliases → Writes ms aliases (· = .texts texts) (texts = []) →
        m.withDefault i (·.asList? Json.asText?) [] = some texts := fun i _ _ hi hw =>
    withDefault_of_writes (hget i _ hi) hw (fun j hj => hj ▸ Json.asList?_texts _) Eq.symm
  have htext : ∀ (i : Nat) {aliases : List String} {s : String},
      names[i]? = some aliases → Writes ms aliases (· = .text s) (s = "") →
        m.withDefault i Json.asText? "" = some s := fun i _ _ hi hw =>
    withDefault_of_writes (hget i _ hi) hw (fun j hj => hj ▸ rfl) Eq.symm
  have hpostAt : m.optional 7 Instant.ofJson? = some r.postAt := by
    refine withDefault_of_writes (hget 7 _ rfl) h.postAt ?_ Eq.symm
    rintro j (rfl | ⟨s, t, rfl, hread, hpost⟩)
    · cases hpost : r.postAt with
      | none => rfl
      | some t =>
        have hback := Instant.ofJson?_toJson (hheld t hpost).calendar
        rw [Instant.asRead_eq (hheld t hpost)] at hback
        exact congrArg (·.map some) hback
    · rw [hpost]
      exact congrArg (·.map some) hread
  rw [ofJson?, hm]
  simp only [Option.bind_eq_bind, Option.bind_some, hcredential, hlist 1 rfl h.targets,
    hlist 2 rfl h.media, htext 3 rfl h.title, htext 4 rfl h.description,
    htext 5 rfl h.htmlDescription, hlist 6 rfl h.tags, hpostAt]
  rfl

/-- **What is written for a request** writes it, under the first name of each member. -/
theorem isWrittenAs_toJson (r : PostRequest) : ∃ ms, r.toJson = .object ms ∧ r.IsWrittenAs ms := by
  obtain ⟨cs, hcs, hcredential⟩ := r.credential.isWrittenAs_toJson
  refine ⟨_, rfl, ?_⟩
  cases hpost : r.postAt with
  | none =>
    exact ⟨by simp [Json.member?], .inl ⟨_, rfl, cs, hcs, hcredential⟩, .inl ⟨_, rfl, rfl⟩,
      .inl ⟨_, rfl, rfl⟩, .inl ⟨_, rfl, rfl⟩, .inl ⟨_, rfl, rfl⟩, .inl ⟨_, rfl, rfl⟩,
      .inl ⟨_, rfl, rfl⟩, .inr ⟨hpost, rfl⟩⟩
  | some t =>
    exact ⟨by simp [Json.member?], .inl ⟨_, rfl, cs, hcs, hcredential⟩, .inl ⟨_, rfl, rfl⟩,
      .inl ⟨_, rfl, rfl⟩, .inl ⟨_, rfl, rfl⟩, .inl ⟨_, rfl, rfl⟩, .inl ⟨_, rfl, rfl⟩,
      .inl ⟨_, rfl, rfl⟩, .inl ⟨_, rfl, .inl (by rw [hpost]; rfl)⟩⟩

/-- Under two names of one member, of the request or of its credential, the object has two values. -/
def RepeatsMember (ms : List (Option String × Json)) : Prop :=
  (∃ aliases ∈ names, 2 ≤ (under aliases ms).length) ∨
    ∃ cs, .object cs ∈ under ["apiKey", "APIKey"] ms ∧
      ∃ aliases ∈ Credential.names, 2 ≤ (under aliases cs).length

/-- **A member that stands twice** makes an object no request. -/
theorem ofJson?_of_repeatsMember {ms : List (Option String × Json)} (h : RepeatsMember ms) :
    ofJson? (.object ms) = none := by
  rcases h with ⟨aliases, haliases, htwo⟩ | ⟨cs, hmem, aliases, haliases, htwo⟩
  · rw [ofJson?, Members.eq_none_of_doubled distinct_names haliases htwo]
    rfl
  · cases hm : Members.of? names (.object ms) with
    | none =>
      rw [ofJson?, hm]
      rfl
    | some m =>
      -- the one value that could be the credential is none
      obtain ⟨honce, hget⟩ := Members.get?_of_eq_some distinct_names (i := 0) hm rfl
      have hone : under ["apiKey", "APIKey"] ms = [.object cs] := by
        cases hunder : under ["apiKey", "APIKey"] ms with
        | nil =>
          rw [hunder] at hmem
          cases hmem
        | cons j js =>
          rw [hunder, List.length_cons] at honce
          obtain rfl := List.length_eq_zero_iff.mp (Nat.le_zero.mp (Nat.le_of_succ_le_succ honce))
          rw [hunder, List.mem_singleton] at hmem
          rw [hmem]
      have hcredential : Credential.ofJson? (.object cs) = none := by
        rw [Credential.ofJson?, Members.eq_none_of_doubled Credential.distinct_names haliases htwo]
        rfl
      have hrequired : m.required 0 Credential.ofJson? = none := by
        rw [Members.required, hget, hone]
        exact hcredential
      rw [ofJson?, hm]
      simp only [Option.bind_eq_bind, Option.bind_some, hrequired, Option.bind_none]

/-- **All spellings of a request mean the same.** A document that holds an object is read as the request
that the object writes, and is no request if it has a known member twice. -/
theorem reads_anySpelling {text : String} {ms : List (Option String × Json)}
    (hdocument : Json.IsDocument text (.object ms)) :
    (∀ r : PostRequest, (∀ t ∈ r.postAt, t.IsHeld) → r.IsWrittenAs ms →
      (Json.ofBytes? (Utf8.encode text)).bind ofJson? = some r) ∧
    (RepeatsMember ms → (Json.ofBytes? (Utf8.encode text)).bind ofJson? = none) := by
  rw [Json.ofBytes?_of_isDocument hdocument, Option.bind_some]
  exact ⟨fun r hheld h => ofJson?_of_isWrittenAs hheld h, ofJson?_of_repeatsMember⟩

/-- A request of an old client, with a member that nobody knows. -/
def sampleLegacy : List (String × Json) :=
  [("TargetPlatforms", .texts ["blog"]), ("Retries", .int 3), ("Title", .text "News"),
    ("APIKey", .record [("APIKey", .text "token"), ("ID", .text "key"), ("UserID", .text "ada")])]

/-- The same with a second title, under the other name. -/
def sampleTwice : List (String × Json) := ("title", .text "News") :: sampleLegacy

theorem written_sampleTwice : ∀ m ∈ sampleTwice, Json.Written m.2 := by
  have hcredential : Json.Written
      (.record [("APIKey", .text "token"), ("ID", .text "key"), ("UserID", .text "ada")]) := by
    apply Json.Written.record
    simp only [List.mem_cons, List.not_mem_nil, or_false, forall_eq_or_imp, forall_eq]
    exact ⟨.text _, .text _, .text _⟩
  simp only [sampleTwice, sampleLegacy, List.mem_cons, List.not_mem_nil, or_false, forall_eq_or_imp,
    forall_eq]
  exact ⟨.text _, .texts _, .int 3, .text _, hcredential⟩

theorem reads_anySpelling_legacy :
    (Json.ofBytes? (Utf8.encode (Json.record sampleLegacy).compact)).bind ofJson? =
      some { credential := ⟨"ada", "key", some "token"⟩, targets := ["blog"], title := "News" } ∧
    (Json.ofBytes? (Utf8.encode (Json.record sampleTwice).compact)).bind ofJson? = none := by
  constructor
  · have hwritten : Json.Written (.record sampleLegacy) :=
      .record fun m hm => written_sampleTwice m (List.mem_cons_of_mem _ hm)
    refine (reads_anySpelling (Json.isDocument_compact hwritten)).1 _ (by simp) ?_
    have hcredential : Credential.IsWrittenAs ⟨"ada", "key", some "token"⟩
        [(some "APIKey", .text "token"), (some "ID", .text "key"), (some "UserID", .text "ada")] :=
      ⟨by simp, .inl ⟨_, rfl, rfl⟩, .inl ⟨_, rfl, rfl⟩, .inl ⟨_, rfl, rfl⟩⟩
    exact ⟨by simp [sampleLegacy], .inl ⟨_, rfl, _, rfl, hcredential⟩, .inl ⟨_, rfl, rfl⟩,
      .inr ⟨rfl, rfl⟩, .inl ⟨_, rfl, rfl⟩, .inr ⟨rfl, rfl⟩, .inr ⟨rfl, rfl⟩, .inr ⟨rfl, rfl⟩,
      .inr ⟨rfl, rfl⟩⟩
  · have hwritten : Json.Written (.record sampleTwice) := .record written_sampleTwice
    refine (reads_anySpelling (Json.isDocument_compact hwritten)).2 (.inl ⟨["title", "Title"], ?_, ?_⟩)
    · decide
    · exact Nat.le_refl 2

end PostRequest
end Syndication
