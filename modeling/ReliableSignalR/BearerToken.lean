import ReliableSignalR.DotNet
import ReliableSignalR.TextTransforms

/-!
# The bearer token in the query string

The subscriber writes its access token into the query string, and the hub takes it
out again, decodes it, removes the word bearer and trims what is left. The word may
stand before the token, which is what the removal is for. It removes the word
wherever it stands, though, also in the middle of a token.

A text is the list of its characters. OWIN's decoding of a query value is a
parameter that inverts `HttpUtility.UrlEncode`; `formDecoding` is one.
-/
namespace ReliableSignalR.BearerToken
open DotNet TextTransforms

/-- The letters of a JWT: base64url and the dots between its parts. -/
def isJwtChar (c : Char) : Bool := c.isAlphanum || ['-', '_', '.'].contains c

structure AccessToken where
  text : List Char
  jwt : ∀ c ∈ text, isJwtChar c = true

/-- The pairs of the query string, with the values as they are sent. -/
abbrev QueryString := List (String × List Char)

/-- How OWIN decodes a value of the query string. -/
structure QueryDecoding where
  decode : List Char → List Char
  decode_urlEncode : ∀ cs, decode (urlEncode cs) = cs

/-- Form decoding, which leaves alone what it cannot decode. -/
def formDecoding : QueryDecoding where
  decode cs := (urlDecode cs).getD cs
  decode_urlEncode cs := by rw [urlDecode_urlEncode, Option.getD_some]

/-- The query string that `StartConnectionToHub` makes. -/
def queryString (accessToken : List Char) : QueryString :=
  [("bearer_token", urlEncode accessToken)]

structure OAuthRequestTokenContext where
  query : QueryString
  token : Option (List Char)
deriving DecidableEq, Repr

/-- The subscriber sends no authorization header, so there is no token yet. -/
def OAuthRequestTokenContext.of (query : QueryString) : OAuthRequestTokenContext := ⟨query, none⟩

section RequestToken
variable (owin : QueryDecoding)

/-- `Query.Get` -/
def queryGet (query : QueryString) (key : String) : Option (List Char) :=
  (query.lookup key).map owin.decode

def bearer : List Char := "bearer".toList

def requestToken (context : OAuthRequestTokenContext) : OAuthRequestTokenContext :=
  match queryGet owin context.query "bearer_token" with
  | none => context
  | some queryStringToken =>
      if isNullOrWhiteSpace (some queryStringToken) then context
      else { context with token := some (stringTrim (remove bearer queryStringToken)) }

/-- The token that the hub takes from a request with this access token. -/
def received (accessToken : List Char) : Option (List Char) :=
  (requestToken owin (.of (queryString accessToken))).token

/-- The token gets through, alone and with the word bearer and a blank before it. -/
structure TokenSurvives (token : AccessToken) : Prop where
  alone : received owin token.text = some token.text
  afterBearer : received owin (bearer ++ ' ' :: token.text) = some token.text

variable {owin}

/-- Encoding and decoding cancel out on every text. -/
theorem received_eq (accessToken : List Char) :
    received owin accessToken =
      if isNullOrWhiteSpace (some accessToken) then none
      else some (stringTrim (remove bearer accessToken)) := by
  have hget : queryGet owin (queryString accessToken) "bearer_token" = some accessToken := by
    rw [queryGet, queryString, List.lookup_cons_self, Option.map_some, owin.decode_urlEncode]
  rw [received, requestToken, OAuthRequestTokenContext.of, hget]
  simp only
  split <;> rfl

theorem printable_of_isJwtChar {c : Char} (h : isJwtChar c = true) :
    33 ≤ c.toNat ∧ c.toNat ≤ 126 := by
  have hrange : ∀ {low high : Char}, 33 ≤ low.toNat → high.toNat ≤ 126 →
      low.val ≤ c.val ∧ c.val ≤ high.val → 33 ≤ c.toNat ∧ c.toNat ≤ 126 := by
    intro low high hlow hhigh hc
    exact ⟨le_trans hlow (UInt32.le_iff_toNat_le.mp hc.1),
      le_trans (UInt32.le_iff_toNat_le.mp hc.2) hhigh⟩
  rcases Bool.or_eq_true_iff.mp h with halphanum | hmark
  · rcases Bool.or_eq_true_iff.mp halphanum with halpha | hdigit
    · rcases Bool.or_eq_true_iff.mp halpha with hupper | hlower
      · have hletter : 'A'.val ≤ c.val ∧ c.val ≤ 'Z'.val := of_decide_eq_true hupper
        exact hrange (by decide) (by decide) hletter
      · have hletter := Bool.and_eq_true_iff.mp hlower
        exact hrange (by decide) (by decide)
          ⟨of_decide_eq_true hletter.1, of_decide_eq_true hletter.2⟩
    · have hnumber := Char.isDigit_iff_toNat.mp hdigit
      exact ⟨le_trans (by decide) hnumber.1, le_trans hnumber.2 (by decide)⟩
  · have hmem : c ∈ ['-', '_', '.'] := List.contains_iff_mem.mp hmark
    simp only [List.mem_cons, List.not_mem_nil, or_false] at hmem
    rcases hmem with rfl | rfl | rfl
    · decide
    · decide
    · decide

theorem charIsWhiteSpace_of_isJwtChar {c : Char} (h : isJwtChar c = true) :
    charIsWhiteSpace c = false := by
  obtain ⟨hlow, hhigh⟩ := printable_of_isJwtChar h
  simp only [charIsWhiteSpace, Bool.or_eq_false_iff, Bool.and_eq_false_iff, decide_eq_false_iff_not,
    List.contains_eq_mem, List.mem_cons, List.not_mem_nil, or_false]
  omega

variable (token : AccessToken)

theorem AccessToken.no_whiteSpace :
    ∀ c ∈ remove bearer token.text, charIsWhiteSpace c = false :=
  fun c hc => charIsWhiteSpace_of_isJwtChar (token.jwt c (mem_of_mem_remove hc))

theorem AccessToken.isNullOrWhiteSpace_iff :
    isNullOrWhiteSpace (some token.text) = true ↔ token.text = [] := by
  rw [isNullOrWhiteSpace, List.all_eq_true]
  constructor
  · intro h
    apply List.eq_nil_iff_forall_not_mem.mpr
    intro c hc
    have hwhite := h c hc
    rw [charIsWhiteSpace_of_isJwtChar (token.jwt c hc)] at hwhite
    cases hwhite
  · intro h c hc
    rw [h] at hc
    cases hc

/-- Alone a token gets through if it is there and the word is not part of it. -/
theorem alone_iff :
    received owin token.text = some token.text ↔ token.text ≠ [] ∧ ¬bearer <:+: token.text := by
  have hbearer : bearer ≠ [] := by decide
  rw [received_eq, ← remove_eq_self hbearer]
  by_cases hempty : token.text = []
  · rw [if_pos (token.isNullOrWhiteSpace_iff.mpr hempty)]
    simp [hempty]
  · rw [if_neg (fun h => hempty (token.isNullOrWhiteSpace_iff.mp h)), Option.some.injEq,
      stringTrim_eq_self token.no_whiteSpace]
    exact ⟨fun h => ⟨hempty, h⟩, fun h => h.2⟩

/-- After the word and a blank it gets through if the word is not part of it. -/
theorem afterBearer_iff :
    received owin (bearer ++ ' ' :: token.text) = some token.text ↔ ¬bearer <:+: token.text := by
  have hbearer : bearer ≠ [] := by decide
  have hwhite : ¬isNullOrWhiteSpace (some (bearer ++ ' ' :: token.text)) = true := by
    intro h
    rw [isNullOrWhiteSpace, List.all_append, Bool.and_eq_true] at h
    exact absurd h.1 (by decide)
  have hblank : remove bearer (' ' :: token.text) = ' ' :: remove bearer token.text :=
    remove_cons_of_head_ne (by decide)
  rw [received_eq, if_neg hwhite, remove_append hbearer, hblank, stringTrim_cons rfl,
    stringTrim_eq_self token.no_whiteSpace, Option.some.injEq, remove_eq_self hbearer]

end RequestToken

/-- For every decoding that inverts the encoding and every token, the hub takes out
what the subscriber has put in precisely if the token is not empty and does not
contain the word bearer. -/
theorem token_survives_exactly_when (owin : QueryDecoding) (token : AccessToken) :
    TokenSurvives owin token ↔ token.text ≠ [] ∧ ¬bearer <:+: token.text := by
  constructor
  · exact fun h => (alone_iff token).mp h.alone
  · exact fun h => ⟨(alone_iff token).mpr h, (afterBearer_iff token).mpr h.2⟩

/-- A token whose signature happens to contain the word. -/
def unlucky : AccessToken :=
  ⟨"e30.e30.x7bearerQ-_k".toList, List.all_eq_true.mp (by decide)⟩

/-- The hub receives the token without the word. -/
theorem unlucky_token_is_cut :
    received formDecoding unlucky.text =
        some "e30.e30.x7Q-_k".toList ∧
      ¬TokenSurvives formDecoding unlucky := by
  have hreceived : received formDecoding unlucky.text =
      some "e30.e30.x7Q-_k".toList := by
    rw [received_eq]
    decide
  refine ⟨hreceived, fun h => ?_⟩
  have halone := h.alone
  rw [hreceived] at halone
  exact absurd halone (by decide)

end ReliableSignalR.BearerToken
