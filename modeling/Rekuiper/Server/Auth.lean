import Rekuiper.Json
import Rekuiper.Lib.Outcome
import Rekuiper.Lib.Text

/-!
# Authorization

`verify_jwt_raw` accepts a raw RS256 JWT, and `auth_guard` lets a request pass
with one. An accepted token is authentic: three segments, an RS256 header, a JSON
payload and a signature over the first two segments. Its expiry is checked only
where `exp` is an integer that fits `i64`; an `exp` of any other kind counts as
none. base64, the JSON parser and the RSA verification are parameters.
-/

namespace Rekuiper.Server

open Lib

variable {F : Type}

/-- What `verify_jwt_raw` calls of other crates. -/
structure JwtCrates (F : Type) where
  /-- `URL_SAFE_NO_PAD.decode` -/
  decode : String → Option (List UInt8)
  /-- `serde_json::from_slice` -/
  fromSlice : List UInt8 → Option (Value F)
  /-- `UnparsedPublicKey::verify` with `RSA_PKCS1_2048_8192_SHA256`: key, message, signature -/
  verify : List UInt8 → String → List UInt8 → Bool

-- ---- The code

def invalidFormat : String := "Invalid JWT format\n"

/-- `map_err` and `?` around a call that fails with the format message -/
def formatted {α : Type} : Option α → Except String α
  | some a => .ok a
  | none => .error invalidFormat

def checkAlg (header : Value F) : Except String Unit :=
  if (header.get "alg").bind Value.asStr = some "RS256" then .ok () else .error invalidFormat

/-- The check of `exp` at `now`, which is skipped where `as_i64` gives nothing. -/
def checkExp (now : Int) (payload : Value F) : Except String Unit :=
  match (payload.get "exp").bind Value.asI64 with
  | some exp => if exp < now then .error "Token has expired\n" else .ok ()
  | none => .ok ()

def checkSignature (crates : JwtCrates F) (key : List UInt8) (message : String)
    (signature : List UInt8) : Except String Unit :=
  if crates.verify key message signature then .ok () else .error "Invalid token signature\n"

def verifyJwtRaw (crates : JwtCrates F) (now : Int) (token : String) (key : List UInt8) :
    Except String Unit :=
  match splitText '.' token with
  | [headerB64, payloadB64, sigB64] => do
    let headerBytes ← formatted (crates.decode headerB64)
    let header ← formatted (crates.fromSlice headerBytes)
    checkAlg header
    let payloadBytes ← formatted (crates.decode payloadB64)
    let payload ← formatted (crates.fromSlice payloadBytes)
    checkExp now payload
    let signature ← formatted (crates.decode sigB64)
    checkSignature crates key (joinText '.' [headerB64, payloadB64]) signature
  | _ => .error invalidFormat

/-- What `auth_guard` reads of a request and the configuration. -/
structure GuardedRequest where
  authentication : Bool
  path : String
  /-- The `authorization` header, if it is there and visible ASCII. -/
  authorization : Option String
  /-- `load_auth_public_key` -/
  publicKey : Option (List UInt8)

/-- The body of the 401 answer, or nothing where the request passes. -/
def authGuard (crates : JwtCrates F) (now : Int) (request : GuardedRequest) :
    Except String Unit :=
  if ¬ request.authentication then .ok ()
  else if request.path = "/" ∨ request.path = "/ping" then .ok ()
  else
    match request.authorization with
    | none => .error "Missing authorization header\n"
    | some header =>
      if startsWith header "Bearer " ∨ startsWith header "bearer " then
        .error "Bearer token is not supported, please use raw JWT token\n"
      else
        match request.publicKey with
        | none => .error "Authentication misconfigured: public key not found\n"
        | some key => verifyJwtRaw crates now (trim header) key

-- ---- What an accepted token is

/-- A token signed with the key: its segments and what they decode to. -/
structure Authentic (crates : JwtCrates F) (token : String) (key : List UInt8)
    (payload : Value F) where
  headerB64 : String
  payloadB64 : String
  sigB64 : String
  header : Value F
  headerBytes : List UInt8
  payloadBytes : List UInt8
  signature : List UInt8
  token_eq : token = joinText '.' [headerB64, payloadB64, sigB64]
  segments : ∀ segment ∈ [headerB64, payloadB64, sigB64], '.' ∉ segment.toList
  header_decodes : crates.decode headerB64 = some headerBytes
  header_json : crates.fromSlice headerBytes = some header
  alg : header.get "alg" = some (.string "RS256")
  payload_decodes : crates.decode payloadB64 = some payloadBytes
  payload_json : crates.fromSlice payloadBytes = some payload
  signature_decodes : crates.decode sigB64 = some signature
  verified : crates.verify key (joinText '.' [headerB64, payloadB64]) signature = true

/-- The number is at least the time `now`. -/
def notEarlier [Float64 F] (now : Int) : Number F → Prop
  | .int n => now ≤ n
  | .float f => Float64.le (Float64.ofInt now) f = true

/-- The `exp` member, if there is one, is a number that is not earlier than `now`. -/
def Unexpired [Float64 F] (now : Int) (payload : Value F) : Prop :=
  ∀ exp, payload.get "exp" = some exp → ∃ n, exp = .number n ∧ notEarlier now n

/-- The `exp` member, if there is one, is an integer that fits `i64`, or a number that is not
earlier than `now` anyway. -/
def ExpReadable [Float64 F] (now : Int) (payload : Value F) : Prop :=
  ∀ exp, payload.get "exp" = some exp →
    exp.asI64.isSome ∨ ∃ n, exp = .number n ∧ notEarlier now n

theorem formatted_ok {α : Type} {o : Option α} {a : α} : formatted o = .ok a ↔ o = some a := by
  cases o with
  | none => exact iff_of_false nofun nofun
  | some b => exact ⟨fun h => Except.ok.inj h ▸ rfl, fun h => Option.some.inj h ▸ rfl⟩

theorem checkAlg_ok {header : Value F} :
    checkAlg header = .ok () ↔ header.get "alg" = some (.string "RS256") := by
  rw [checkAlg]
  have hstr : (header.get "alg").bind Value.asStr = some "RS256" ↔
      header.get "alg" = some (.string "RS256") := by
    rw [Option.bind_eq_some_iff]
    constructor
    · rintro ⟨v, hv, hs⟩
      cases v with
      | string s => rw [hv, Option.some.inj hs]
      | null | bool | number | array | object => cases hs
    · exact fun h => ⟨_, h, rfl⟩
  split
  · exact iff_of_true rfl (hstr.mp ‹_›)
  · exact iff_of_false nofun fun h => absurd (hstr.mpr h) ‹_›

theorem checkSignature_ok {crates : JwtCrates F} :
    checkSignature crates key message signature = .ok () ↔
      crates.verify key message signature = true := by
  rw [checkSignature]
  split <;> simp_all

theorem verifyJwtRaw_ok_iff {crates : JwtCrates F} {now : Int} {token : String}
    {key : List UInt8} :
    verifyJwtRaw crates now token key = .ok () ↔
      ∃ payload, Nonempty (Authentic crates token key payload) ∧
        checkExp now payload = .ok () := by
  constructor
  · intro h
    unfold verifyJwtRaw at h
    split at h
    · rename_i headerB64 payloadB64 sigB64 hsplit
      obtain ⟨htoken, hsegments⟩ := (splitText_eq_iff (by simp)).mp hsplit
      obtain ⟨headerBytes, hheader, h⟩ := bind_eq_ok h
      obtain ⟨header, hjson, h⟩ := bind_eq_ok h
      obtain ⟨halg, h⟩ := check_bind_ok_iff.mp h
      obtain ⟨payloadBytes, hpayload, h⟩ := bind_eq_ok h
      obtain ⟨payload, hpayloadJson, h⟩ := bind_eq_ok h
      obtain ⟨hexp, h⟩ := check_bind_ok_iff.mp h
      obtain ⟨signature, hsig, h⟩ := bind_eq_ok h
      exact ⟨payload, ⟨{
        headerB64, payloadB64, sigB64, header, headerBytes, payloadBytes, signature
        token_eq := htoken
        segments := hsegments
        header_decodes := formatted_ok.mp hheader
        header_json := formatted_ok.mp hjson
        alg := checkAlg_ok.mp halg
        payload_decodes := formatted_ok.mp hpayload
        payload_json := formatted_ok.mp hpayloadJson
        signature_decodes := formatted_ok.mp hsig
        verified := checkSignature_ok.mp h }⟩, hexp⟩
    · cases h
  · rintro ⟨payload, ⟨a⟩, hexp⟩
    have hsplit : splitText '.' token = [a.headerB64, a.payloadB64, a.sigB64] :=
      (splitText_eq_iff (by simp)).mpr ⟨a.token_eq, a.segments⟩
    simp only [verifyJwtRaw, hsplit, bind_eq_ok_iff]
    exact ⟨_, formatted_ok.mpr a.header_decodes, _, formatted_ok.mpr a.header_json,
      (), checkAlg_ok.mpr a.alg, _, formatted_ok.mpr a.payload_decodes, _,
      formatted_ok.mpr a.payload_json, (), hexp, _, formatted_ok.mpr a.signature_decodes,
      checkSignature_ok.mpr a.verified⟩

theorem Authentic.payload_unique {crates : JwtCrates F} {token : String} {key : List UInt8}
    {payload payload' : Value F} (a : Authentic crates token key payload)
    (b : Authentic crates token key payload') : payload = payload' := by
  have hsplit := (splitText_eq_iff (by simp)).mpr ⟨a.token_eq, a.segments⟩
  rw [(splitText_eq_iff (by simp)).mpr ⟨b.token_eq, b.segments⟩] at hsplit
  have hsegment : b.payloadB64 = a.payloadB64 := (List.cons.inj (List.cons.inj hsplit).2).1
  have hbytes := b.payload_decodes
  rw [hsegment, a.payload_decodes] at hbytes
  have hjson := b.payload_json
  rw [← Option.some.inj hbytes, a.payload_json] at hjson
  exact Option.some.inj hjson

/-- No request passes without a token that the key verifies. -/
theorem authGuard_authentic {crates : JwtCrates F} {now : Int} {request : GuardedRequest}
    (hon : request.authentication = true) (hpath : request.path ≠ "/" ∧ request.path ≠ "/ping")
    (h : authGuard crates now request = .ok ()) :
    ∃ header key payload, request.authorization = some header ∧ request.publicKey = some key ∧
      Nonempty (Authentic crates (trim header) key payload) := by
  unfold authGuard at h
  rw [if_neg (by simp [hon]), if_neg (by simp [hpath])] at h
  split at h
  · cases h
  · rename_i header hheader
    split at h
    · cases h
    · split at h
      · cases h
      · rename_i key hkey
        obtain ⟨payload, hauthentic, -⟩ := verifyJwtRaw_ok_iff.mp h
        exact ⟨header, key, payload, hheader, hkey, hauthentic⟩

theorem asI64_eq_some {v : Value F} {n : Int} (h : v.asI64 = some n) : v = .number (.int n) := by
  cases v with
  | number m =>
    cases m with
    | int m =>
      simp only [Value.asI64, Number.asI64] at h
      split at h
      · rw [Option.some.inj h]
      · cases h
    | float f => cases h
  | null | bool | string | array | object => cases h

theorem checkExp_ok_iff [Float64 F] {now : Int} {payload : Value F}
    (h : ExpReadable now payload) : checkExp now payload = .ok () ↔ Unexpired now payload := by
  unfold checkExp Unexpired
  cases hexp : payload.get "exp" with
  | none => simp
  | some exp =>
    rw [Option.bind_some]
    cases hint : exp.asI64 with
    | some n =>
      obtain rfl := asI64_eq_some hint
      dsimp only
      constructor
      · intro hok _ hmem
        cases hmem
        refine ⟨.int n, rfl, Int.not_lt.mp fun hlt => ?_⟩
        rw [if_pos hlt] at hok
        cases hok
      · intro hall
        obtain ⟨m, hm, hlate⟩ := hall _ rfl
        cases hm
        rw [if_neg (Int.not_lt.mpr hlate)]
    | none =>
      refine ⟨fun _ _ hmem => ?_, fun _ => rfl⟩
      cases hmem
      rcases h exp hexp with hsome | hnumber
      · rw [hint] at hsome
        cases hsome
      · exact hnumber

/-- What `verify_jwt_raw` is documented to do: it accepts no token that is not authentic
and unexpired. -/
def AcceptsOnlyValid [Float64 F] (crates : JwtCrates F) (now : Int) (token : String)
    (key : List UInt8) : Prop :=
  verifyJwtRaw crates now token key = .ok () →
    ∃ payload, Nonempty (Authentic crates token key payload) ∧ Unexpired now payload

/-- A token is accepted only if it is valid in every respect, if and only if the `exp` of an
authentic token is readable. -/
theorem acceptsOnlyValid_iff [Float64 F] (crates : JwtCrates F) (now : Int) (token : String)
    (key : List UInt8) :
    AcceptsOnlyValid crates now token key ↔
      ∀ payload, Nonempty (Authentic crates token key payload) → ExpReadable now payload := by
  rw [AcceptsOnlyValid, verifyJwtRaw_ok_iff]
  constructor
  · rintro h payload ⟨a⟩ exp hexp
    cases hint : exp.asI64 with
    | some n => exact .inl rfl
    | none =>
      -- the check is skipped, so the token is accepted as it is
      have hskipped : checkExp now payload = .ok () := by
        rw [checkExp, hexp, Option.bind_some, hint]
      obtain ⟨payload', ⟨b⟩, hunexpired⟩ := h ⟨payload, ⟨a⟩, hskipped⟩
      obtain rfl := a.payload_unique b
      exact .inr (hunexpired exp hexp)
  · rintro h ⟨payload, ⟨a⟩, hexp⟩
    exact ⟨payload, ⟨a⟩, (checkExp_ok_iff (h payload ⟨a⟩)).mp hexp⟩

-- ---- A fractional expiry

/-- base64 and JSON of the two segments of a token with `exp` 1.5, and a key that signed it. -/
def fractionalCrates : JwtCrates ℚ where
  decode text :=
    if text = "eyJhbGciOiJSUzI1NiJ9" then some [1]
    else if text = "eyJleHAiOjEuNX0" then some [2]
    else if text = "AA" then some [0]
    else none
  fromSlice bytes :=
    if bytes = [1] then some (.object [("alg", .string "RS256")])
    else if bytes = [2] then some (.object [("exp", .number (.float (3 / 2)))])
    else none
  verify key message signature :=
    key == [7] && message == "eyJhbGciOiJSUzI1NiJ9.eyJleHAiOjEuNX0" && signature == [0]

def fractionalToken : String := "eyJhbGciOiJSUzI1NiJ9.eyJleHAiOjEuNX0.AA"

def fractionalPayload : Value ℚ := .object [("exp", .number (.float (3 / 2)))]

def fractional_authentic : Authentic fractionalCrates fractionalToken [7] fractionalPayload where
  headerB64 := "eyJhbGciOiJSUzI1NiJ9"
  payloadB64 := "eyJleHAiOjEuNX0"
  sigB64 := "AA"
  header := .object [("alg", .string "RS256")]
  headerBytes := [1]
  payloadBytes := [2]
  signature := [0]
  token_eq := by decide
  segments := by decide
  header_decodes := rfl
  header_json := rfl
  alg := rfl
  payload_decodes := rfl
  payload_json := rfl
  signature_decodes := rfl
  verified := by decide

/-- The token expired at 1.5 and is accepted at 1000. -/
theorem fractional_exp_accepted :
    verifyJwtRaw fractionalCrates 1000 fractionalToken [7] = .ok () ∧
      ¬ AcceptsOnlyValid fractionalCrates 1000 fractionalToken [7] := by
  have hok : verifyJwtRaw fractionalCrates 1000 fractionalToken [7] = .ok () :=
    verifyJwtRaw_ok_iff.mpr ⟨fractionalPayload, ⟨fractional_authentic⟩, rfl⟩
  refine ⟨hok, fun h => ?_⟩
  obtain ⟨payload, ⟨a⟩, hunexpired⟩ := h hok
  obtain rfl := a.payload_unique fractional_authentic
  obtain ⟨n, hn, hlate⟩ := hunexpired (.number (.float (3 / 2))) rfl
  cases hn
  revert hlate
  simp only [notEarlier, Float64.le, Float64.ofInt, decide_eq_true_eq]
  norm_num

def fractionalRequest : GuardedRequest := ⟨true, "/rules", some fractionalToken, some [7]⟩

theorem authGuard_authentic_fractional : ∃ header key payload,
    fractionalRequest.authorization = some header ∧ fractionalRequest.publicKey = some key ∧
      Nonempty (Authentic fractionalCrates (trim header) key payload) :=
  authGuard_authentic rfl (by decide)
    (show authGuard fractionalCrates 0 fractionalRequest = .ok () by decide +kernel)

end Rekuiper.Server
