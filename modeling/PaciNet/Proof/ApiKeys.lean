import PaciNet.Server.Auth
import PaciNet.Web.UseEvents

/-!
# Keys in the query

The web client writes its key form url-encoded into the query of an event stream. The server
compares what stands there with its own key, without decoding it.

**A server lets its own clients through, and no others, exactly if its key is written as itself**:
letters, digits and `* - . _`. Otherwise its own clients are turned away; one with another key,
that happens to be written like the server's, is let in.
-/

set_option autoImplicit false

namespace PaciNet

open Lib

/-- **A client of the event streams is let in exactly if its key is the server's.** -/
def KeysPass (expectedKey : String) : Prop :=
  ∀ (params : List (String × String)) (key : String), key ≠ "" →
    (authMiddleware (some expectedKey) none (some (sseQuery params (some key))) = true ↔
      key = expectedKey)

theorem tokenOk_serialize (expectedKey key : String) (params : List (String × String)) :
    tokenOk expectedKey (some (Form.serialize (Form.set params "token" key))) = true ↔
      Form.encode key = expectedKey := by
  have htokenName : Form.encode "token" = "token" := by decide +kernel
  have hfind := Form.find?_serialize_set htokenName params key
  have hparts : "token=".toList = "token".toList ++ ['='] := by decide
  have hdrop : (Form.pair ("token", key)).drop 6 = Form.encodeText key.toList := by
    have htoken : Form.encodeText "token".toList = "token".toList := by decide +kernel
    unfold Form.pair
    rw [htoken, List.append_cons]
    rfl
  unfold tokenOk
  simp only [hparts]
  rw [hfind]
  show ((Form.pair ("token", key)).drop 6 == expectedKey.toList) = true ↔ _
  rw [hdrop, beq_iff_eq, ← String.toList_inj]
  unfold Form.encode
  rw [String.toList_ofList]

/-- The server takes the key as it is written. -/
theorem authMiddleware_sseQuery {params : List (String × String)} {expectedKey key : String}
    (hkey : key ≠ "") :
    authMiddleware (some expectedKey) none (some (sseQuery params (some key))) = true ↔
      Form.encode key = expectedKey := by
  have hquery : sseQuery params (some key) =
      Form.serialize (Form.set (namedParams params) "token" key) := if_pos hkey
  rw [hquery]
  show (false || _) = true ↔ _
  rw [Bool.false_or]
  exact tokenOk_serialize _ _ _

/-- **Keys pass through the query** exactly if they are written as themselves. -/
theorem keysPass_iff (expectedKey : String) :
    KeysPass expectedKey ↔ ∀ c ∈ expectedKey.toList, Form.Plain c := by
  rw [← Form.encode_eq_iff]
  constructor
  · intro hpass
    by_cases hempty : expectedKey = ""
    · rw [hempty]
      decide
    · exact (authMiddleware_sseQuery hempty).mp ((hpass [] expectedKey hempty).mpr rfl)
  · intro hself params key hkey
    rw [authMiddleware_sseQuery hkey]
    constructor
    · intro h
      exact Form.encode_injective (h.trans hself.symm)
    · rintro rfl
      exact hself

/-- A server whose key has a plus sign in it turns its clients away. -/
theorem not_keysPass : ¬KeysPass "a+b" := by
  intro hpass
  have hin := (hpass [] "a+b" (by decide)).mpr rfl
  rw [authMiddleware_sseQuery (by decide)] at hin
  exact absurd hin (by decide +kernel)

/-- It lets in those whose key has a space there instead. -/
example :
    authMiddleware (some "a+b") none (some (sseQuery [("node", "n1")] (some "a b"))) = true := by
  decide +kernel

end PaciNet
