import Vaultex.AuthMiddleware

/-!
# The open routes

Which requests skip the signature check, against the routes that the
comments in `is_unauthenticated_route` and the REST table give as public.
-/

set_option autoImplicit false

namespace Vaultex.AuthMiddleware
open Text

def ByKeyPath (path : String) : Prop :=
  ∃ segment, segment ≠ "" ∧ '/' ∉ segment.toList ∧ path = "/api/v1/accounts/by-key/"++segment

def PrekeyBundlePath (path : String) : Prop :=
  ∃ segment, '/' ∉ segment.toList ∧ path = "/api/v1/accounts/"++segment++"/prekey_bundle"

inductive Documented : (method path : String) → Prop where
  | register : Documented "POST" "/api/v1/accounts/register"
  | health : Documented "GET" "/api/v1/health"
  | ping : Documented "GET" "/api/v1/ping"
  | ws (method : String) : Documented method "/ws"
  | byKey {path : String} : ByKeyPath path → Documented "GET" path
  | prekeyBundle {path : String} : PrekeyBundlePath path → Documented "GET" path
  | send : Documented "POST" "/api/v1/messages/send"
  | sealedSend : Documented "POST" "/api/v1/messages/sealed"
  | visits {method : String} : method = "GET" ∨ method = "POST" →
      Documented method "/api/v1/stats/visits"

/-- A path that one of the two inexact matches lets through. -/
def Matched (path : String) : Prop :=
  (∃ rest, path = "/api/v1/accounts/by-key/"++rest) ∨
    ∃ before after, path = before++"/prekey_bundle"++after

theorem matched_iff {path : String} : Matched path ↔
    (startsWith path "/api/v1/accounts/by-key/" || contains path "/prekey_bundle") = true := by
  rw [Bool.or_eq_true, startsWith_iff, contains_iff, Matched]

/-- All other open routes are matched exactly. -/
theorem unauthenticated_cases {method path : String}
    (h : isUnauthenticatedRoute method path = true) :
    Documented method path ∨ method = "GET" ∧ Matched path := by
  simp only [isUnauthenticatedRoute, Bool.or_eq_true, Bool.and_eq_true, decide_eq_true_eq] at h
  rcases h with (((((((⟨rfl,rfl⟩ | ⟨rfl,rfl⟩) | ⟨rfl,rfl⟩) | rfl) | ⟨rfl,h⟩) | ⟨rfl,h⟩) |
    ⟨rfl,rfl⟩) | ⟨rfl,rfl⟩) | ⟨rfl,h⟩
  · exact .inl .register
  · exact .inl .health
  · exact .inl .ping
  · exact .inl (.ws method)
  · exact .inr ⟨rfl,.inl (startsWith_iff.mp h)⟩
  · exact .inr ⟨rfl,.inr (contains_iff.mp h)⟩
  · exact .inl .send
  · exact .inl .sealedSend
  · exact .inl (.visits h)

theorem unauthenticated_of_matched {path : String} (h : Matched path) :
    isUnauthenticatedRoute "GET" path = true := by
  rw [matched_iff, Bool.or_eq_true] at h
  rcases h with h | h
  · simp [isUnauthenticatedRoute, h]
  · simp [isUnauthenticatedRoute, h]

/-- The paths of the exactly matched routes are matched by neither. -/
theorem shape_of_documented {method path : String} (hmethod : method = "GET")
    (hmatched : Matched path) (h : Documented method path) :
    ByKeyPath path ∨ PrekeyBundlePath path := by
  cases h with
  | register => exact absurd hmethod (by decide)
  | health => exact absurd hmatched (by rw [matched_iff]; decide)
  | ping => exact absurd hmatched (by rw [matched_iff]; decide)
  | ws => exact absurd hmatched (by rw [matched_iff]; decide)
  | byKey h => exact .inl h
  | prekeyBundle h => exact .inr h
  | send => exact absurd hmethod (by decide)
  | sealedSend => exact absurd hmethod (by decide)
  | visits => exact absurd hmatched (by rw [matched_iff]; decide)

variable {Uuid : Type}

/-- Only documented routes are open, and every other request is passed on
with a verified signature or not at all, exactly for those methods and paths
that the two inexact matches do not let through beyond their documented shape. -/
theorem only_documented_open_iff (S : Server Uuid) (now : UInt64) (method path : String) :
    ((isUnauthenticatedRoute method path = true → Documented method path) ∧
      ∀ request r user, toUppercase request.method.name = method → request.uri.path = path →
        ¬Documented method path → authMiddleware S now request = .ok (r,user) →
        ∃ c : Credentials Uuid, c.Accepted S now request ∧ r = request ∧ user = some c.user) ↔
    (method = "GET" → Matched path → ByKeyPath path ∨ PrekeyBundlePath path) := by
  constructor
  · rintro ⟨hopen,-⟩ rfl hmatched
    exact shape_of_documented rfl hmatched (hopen (unauthenticated_of_matched hmatched))
  · intro h
    have hopen : isUnauthenticatedRoute method path = true → Documented method path := by
      intro hroute
      rcases unauthenticated_cases hroute with hdocumented | ⟨rfl,hmatched⟩
      · exact hdocumented
      · rcases h rfl hmatched with hshape | hshape
        · exact .byKey hshape
        · exact .prekeyBundle hshape
    refine ⟨hopen,?_⟩
    rintro request r user rfl rfl hnot hpassed
    have hclosed : isUnauthenticatedRoute (toUppercase request.method.name) request.uri.path =
        false := by
      rw [← Bool.not_eq_true]
      exact fun hroute => hnot (hopen hroute)
    exact (authMiddleware_ok hclosed).mp hpassed

theorem PrekeyBundlePath.bounds {path : String} (h : PrekeyBundlePath path) :
    startsWith path "/api/v1/accounts/" ∧ contains path "/prekey_bundle" := by
  obtain ⟨segment,-,rfl⟩ := h
  constructor
  · exact startsWith_iff.mpr ⟨segment++"/prekey_bundle",String.append_assoc⟩
  · exact contains_iff.mpr ⟨"/api/v1/accounts/"++segment,"",by simp⟩

/-- The inbox with one more segment is open, and so is a key lookup of two segments. -/
theorem undocumented_open :
    (isUnauthenticatedRoute "GET" "/api/v1/messages/inbox/prekey_bundle" = true ∧
      ¬Documented "GET" "/api/v1/messages/inbox/prekey_bundle") ∧
    isUnauthenticatedRoute "GET" "/api/v1/accounts/by-key/a1/b2" = true ∧
      ¬Documented "GET" "/api/v1/accounts/by-key/a1/b2" := by
  have hinbox : Matched "/api/v1/messages/inbox/prekey_bundle" := by
    rw [matched_iff]
    decide
  have hlookup : Matched "/api/v1/accounts/by-key/a1/b2" := by
    rw [matched_iff]
    decide
  refine ⟨⟨unauthenticated_of_matched hinbox,?_⟩,unauthenticated_of_matched hlookup,?_⟩
  · intro h
    rcases shape_of_documented rfl hinbox h with ⟨segment,-,-,hpath⟩ | hbundle
    · exact absurd (startsWith_iff.mpr ⟨segment,hpath⟩) (by decide)
    · exact absurd hbundle.bounds.1 (by decide)
  · intro h
    rcases shape_of_documented rfl hlookup h with ⟨segment,-,hslash,hpath⟩ | hbundle
    · have hsegment : "/api/v1/accounts/by-key/".toList++"a1/b2".toList =
          "/api/v1/accounts/by-key/".toList++segment.toList :=
        (congrArg String.toList hpath).trans String.toList_append
      rw [← List.append_cancel_left hsegment] at hslash
      exact absurd hslash (by decide)
    · exact absurd hbundle.bounds.2 (by decide)

end Vaultex.AuthMiddleware
