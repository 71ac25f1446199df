import CultureNodes.Library.Base64
import CultureNodes.Library.Transition

/-!
Callback tokens. A token names an attempt and an expiry in the clear and carries a MAC over both; the
holder of one may report on that attempt and on no other. The signed text is the fields joined by line
breaks, without their lengths, while the verifier signs again whatever fields it was handed: that a
signed text determines its fields is what the authority of a token rests on.
-/

namespace CultureNodes.Actors

/-- A string of the source: any bytes. -/
abbrev Bytes := List UInt8

def ascii (text : String) : Bytes :=
  text.toList.map fun char => UInt8.ofNat char.toNat

/-- An instant, as whole seconds counted from year 1, which wrap around, and nanoseconds. -/
structure Time where
  sec : Int64
  nsec : Fin 1000000000
deriving DecidableEq, Repr

namespace Time

def unixToInternal : Int64 := 62135596800

def unix (time : Time) : Int64 :=
  time.sec - unixToInternal

def ofUnix (sec : Int64) : Time :=
  ⟨sec + unixToInternal, 0⟩

def before (time other : Time) : Bool :=
  time.sec < other.sec || (time.sec = other.sec && time.nsec < other.nsec)

def isZero (time : Time) : Bool :=
  time.sec = 0 && time.nsec = 0

/-- Later by a number of nanoseconds. A sum of seconds out of range stays at the end of the range. -/
def add (time : Time) (duration : Int64) : Time :=
  let total : Int := time.nsec.val + duration.toInt
  let sum := time.sec.toInt + total / 1000000000
  { sec :=
      if 2 ^ 63 ≤ sum then Int64.ofInt (2 ^ 63 - 1)
      else if sum < -2 ^ 63 then Int64.ofInt (-(2 ^ 63 - 1))
      else Int64.ofInt sum
    nsec := Fin.ofNat _ (total % 1000000000).toNat }

end Time

def minTokenSecretBytes : Nat := 16

def tokenPrefix : Bytes := ascii "cnt1"

def tokenDomain : Bytes := ascii "culture-nodes/actor-callback-token/v1"

inductive TokenErrorKind where
  | malformed
  | badSignature
  | expired
  | foreignAttempt
deriving DecidableEq, Repr

/-- What the text of a refusal is made of. -/
inductive TokenDetail where
  | text (detail : String)
  | expiredAt (expiry : Time)
  | names (got want : Bytes)
deriving DecidableEq, Repr

structure TokenError where
  kind : TokenErrorKind
  detail : TokenDetail := .text ""
deriving DecidableEq, Repr

/-- Its secret and how long, in nanoseconds, the tokens it mints stay valid. -/
structure TokenSigner where
  secret : Bytes
  ttl : Int64
  longSecret : minTokenSecretBytes ≤ secret.length
  positiveTTL : 0 < ttl

section

-- HMAC-SHA256: a secret and a text to a tag.
variable (hmac : Bytes → Bytes → Bytes)

/-- The text the MAC is taken of. -/
def signedText (subject exp : Bytes) : Bytes :=
  tokenDomain ++ 10 :: (subject ++ 10 :: exp)

namespace TokenSigner

variable (signer : TokenSigner)

def sign (subject exp : Bytes) : Bytes :=
  hmac signer.secret (signedText subject exp)

def mintAt (attemptID : Bytes) (expiry : Time) : Bytes :=
  let exp := Decimal.formatInt expiry.unix
  let subject := Base64.encode attemptID
  let mac := signer.sign hmac subject exp
  [46].intercalate [tokenPrefix, subject, exp, Base64.encode mac]

def mint (attemptID : Bytes) (now : Time) : Except String Bytes :=
  if attemptID = [] then .error "actors: Mint: attempt id is required"
  else .ok (signer.mintAt hmac attemptID (now.add signer.ttl))

def mintUntil (attemptID : Bytes) (expiry : Time) : Except String Bytes :=
  if attemptID = [] then .error "actors: MintUntil: attempt id is required"
  else if expiry.isZero then .error "actors: MintUntil: expiry is required"
  else .ok (signer.mintAt hmac attemptID expiry)

/-- The checks behind the form of the token, the signature first. -/
def verifyParts (subject exp macPart : Bytes) (now : Time) : Except TokenError Bytes :=
  match Base64.decode macPart with
  | none => .error { kind := .malformed, detail := .text "signature is not base64url" }
  | some presented =>
      if presented ≠ signer.sign hmac subject exp then .error { kind := .badSignature }
      else
        match Base64.decode subject with
        | none => .error { kind := .malformed, detail := .text "subject is not base64url" }
        | some attemptID =>
            match Decimal.parseInt exp with
            | none => .error { kind := .malformed, detail := .text "expiry is not an integer" }
            | some expiryUnix =>
                if now.before (Time.ofUnix expiryUnix) then .ok attemptID
                else .error { kind := .expired, detail := .expiredAt (Time.ofUnix expiryUnix) }

def verify (token : Bytes) (now : Time) : Except TokenError Bytes :=
  match token.splitOn 46 with
  | [version, subject, exp, macPart] =>
      if version = tokenPrefix then signer.verifyParts hmac subject exp macPart now
      else .error { kind := .malformed, detail := .text "expected cnt1.<subject>.<expiry>.<mac>" }
  | _ => .error { kind := .malformed, detail := .text "expected cnt1.<subject>.<expiry>.<mac>" }

def verifyFor (token wantAttemptID : Bytes) (now : Time) : Except TokenError Unit :=
  match signer.verify hmac token now with
  | .error refusal => .error refusal
  | .ok got =>
      if got = wantAttemptID then .ok ()
      else .error { kind := .foreignAttempt, detail := .names got wantAttemptID }

end TokenSigner

/-- A token handed out. -/
structure Minted where
  attempt : Bytes
  expiry : Time
  token : Bytes
deriving DecidableEq

inductive MintCall where
  | mint (attemptID : Bytes) (now : Time)
  | mintUntil (attemptID : Bytes) (expiry : Time)
deriving DecidableEq

def TokenSigner.act (signer : TokenSigner) (minted : List Minted) (call : MintCall) :
    Option (List Minted) :=
  match call with
  | .mint attemptID now =>
      match signer.mint hmac attemptID now with
      | .ok token => some (minted ++ [⟨attemptID, now.add signer.ttl, token⟩])
      | .error _ => some minted
  | .mintUntil attemptID expiry =>
      match signer.mintUntil hmac attemptID expiry with
      | .ok token => some (minted ++ [⟨attemptID, expiry, token⟩])
      | .error _ => some minted

/-- HMAC as an ideal MAC towards whoever presents the token: where its tag is the tag of its own text, the signer
has signed that text. -/
def Unforged (signer : TokenSigner) (minted : List Minted) (token : Bytes) : Prop :=
  ∀ version subject exp macPart tag, token.splitOn 46 = [version, subject, exp, macPart] →
    Base64.decode macPart = some tag → tag = hmac signer.secret (signedText subject exp) →
      ∃ old ∈ minted, signedText subject exp =
        signedText (Base64.encode old.attempt) (Decimal.formatInt old.expiry.unix)

end

variable {hmac : Bytes → Bytes → Bytes} {signer : TokenSigner} {minted : List Minted}
  {subject exp : Bytes} {token attempt : Bytes} {now : Time}

/-- Where the last field and the one before it have no separator in them, a join determines both,
whatever the fields it is compared with hold. -/
theorem append_cons_inj {separator : UInt8} {left right left' right' : Bytes}
    (noneLeft : separator ∉ left') (noneRight : separator ∉ right')
    (same : left ++ separator :: right = left' ++ separator :: right') : left = left' ∧ right = right' := by
  rcases List.append_eq_append_iff.mp same with ⟨middle, longer, rest⟩ | ⟨middle, longer, rest⟩
  · cases middle with
    | nil => simp_all
    | cons first tail =>
        simp only [List.cons_append, List.cons.injEq] at rest
        obtain ⟨rfl, rfl⟩ := rest
        simp [longer] at noneLeft
  · cases middle with
    | nil => simp_all
    | cons first tail =>
        simp only [List.cons_append, List.cons.injEq] at rest
        obtain ⟨rfl, rfl⟩ := rest
        simp at noneRight

theorem newline_notMem_encode (bytes : Bytes) : 10 ∉ Base64.encode bytes := by
  intro member
  exact absurd (Base64.mem_encode member).1 (by decide)

theorem newline_notMem_formatInt (value : Int64) : 10 ∉ Decimal.formatInt value := by
  intro member
  exact (Decimal.mem_formatInt member).1 rfl

theorem signedText_inj {value : Int64} {bytes : Bytes}
    (same : signedText subject exp = signedText (Base64.encode bytes) (Decimal.formatInt value)) :
    subject = Base64.encode bytes ∧ exp = Decimal.formatInt value := by
  unfold signedText at same
  have fields := List.append_cancel_left same
  simp only [List.cons.injEq, true_and] at fields
  exact append_cons_inj (newline_notMem_encode bytes) (newline_notMem_formatInt value) fields

namespace Time

theorem ofUnix_unix_sec (time : Time) : (ofUnix time.unix).sec = time.sec := by
  simp [ofUnix, unix]

/-- Dropping the nanoseconds makes an instant no later. -/
theorem before_of_before_ofUnix {expiry : Time} (earlier : now.before (ofUnix expiry.unix) = true) :
    now.before expiry = true := by
  simp only [before, ofUnix_unix_sec, Bool.or_eq_true, Bool.and_eq_true, decide_eq_true_eq] at earlier ⊢
  rcases earlier with less | ⟨_, less⟩
  · exact Or.inl less
  · exact absurd less (Fin.not_lt_zero _)

end Time

namespace TokenSigner

theorem verify_ok (accepted : signer.verify hmac token now = .ok attempt) :
    ∃ subject exp macPart expiryUnix, token.splitOn 46 = [tokenPrefix, subject, exp, macPart] ∧
      Base64.decode macPart = some (hmac signer.secret (signedText subject exp)) ∧
      Base64.decode subject = some attempt ∧ Decimal.parseInt exp = some expiryUnix ∧
      now.before (Time.ofUnix expiryUnix) = true := by
  unfold verify at accepted
  split at accepted
  · rename_i version subject exp macPart parts
    split at accepted
    · rename_i current
      subst current
      unfold verifyParts at accepted
      split at accepted
      · cases accepted
      rename_i presented decoded
      split at accepted
      · cases accepted
      rename_i genuine
      split at accepted
      · cases accepted
      rename_i attemptID named
      split at accepted
      · cases accepted
      rename_i expiryUnix read
      split at accepted
      · rename_i early
        cases accepted
        rw [not_not] at genuine
        subst genuine
        exact ⟨subject, exp, macPart, expiryUnix, parts, decoded, named, read, early⟩
      · cases accepted
    · cases accepted
  · cases accepted

theorem splitOn_mintAt (attemptID : Bytes) (expiry : Time) :
    (signer.mintAt hmac attemptID expiry).splitOn 46 =
      [tokenPrefix, Base64.encode attemptID, Decimal.formatInt expiry.unix,
        Base64.encode (signer.sign hmac (Base64.encode attemptID) (Decimal.formatInt expiry.unix))] := by
  have encoded (bytes : Bytes) : 46 ∉ Base64.encode bytes := fun member =>
    (Base64.mem_encode member).2 rfl
  have numeral : 46 ∉ Decimal.formatInt expiry.unix := fun member =>
    (Decimal.mem_formatInt member).2 rfl
  have plain : 46 ∉ tokenPrefix := by decide +kernel
  unfold mintAt
  apply List.splitOn_intercalate
  · simp [encoded, numeral, plain]
  · simp

def Issued (hmac : Bytes → Bytes → Bytes) (signer : TokenSigner) (minted : List Minted) : Prop :=
  ∀ old ∈ minted, old.token = signer.mintAt hmac old.attempt old.expiry

theorem Issued.append {attemptID : Bytes} {expiry : Time} (issued : Issued hmac signer minted)
    (same : token = signer.mintAt hmac attemptID expiry) :
    Issued hmac signer (minted ++ [⟨attemptID, expiry, token⟩]) := by
  intro old member
  rcases List.mem_append.mp member with before | last
  · exact issued old before
  · cases List.mem_singleton.mp last
    exact same

theorem Issued.act {next : List Minted} {call : MintCall} (issued : Issued hmac signer minted)
    (called : signer.act hmac minted call = some next) : Issued hmac signer next := by
  unfold TokenSigner.act at called
  cases call with
  | mint attemptID now =>
      simp only [mint] at called
      split at called
      · rename_i token minted_
        split at minted_
        · cases minted_
        · cases minted_
          cases called
          exact issued.append rfl
      · cases called
        exact issued
  | mintUntil attemptID expiry =>
      simp only [mintUntil] at called
      split at called
      · rename_i token minted_
        split at minted_
        · cases minted_
        · split at minted_
          · cases minted_
          · cases minted_
            cases called
            exact issued.append rfl
      · cases called
        exact issued

theorem issued_of_run (run : Steps (fun minted call next => signer.act hmac minted call = some next)
    anyAction [] minted) : Issued hmac signer minted :=
  run.invariant (Issued hmac signer) (fun _ member => by cases member)
    fun _ _ _ issued _ called => issued.act called

theorem verify_mintAt {expiry : Time} {attemptID : Bytes}
    (accepted : signer.verify hmac (signer.mintAt hmac attemptID expiry) now = .ok attempt) :
    attempt = attemptID := by
  obtain ⟨subject, exp, macPart, expiryUnix, parts, _, named, _⟩ := verify_ok accepted
  rw [splitOn_mintAt] at parts
  simp only [List.cons.injEq, and_true, true_and] at parts
  rw [← parts.1, Base64.decode_encode] at named
  exact (Option.some.inj named).symm

/-- An accepted token is authority the signer gave: it minted one for that very attempt, with an expiry
still to come. A token it minted is accepted for the attempt it was minted for only. -/
theorem verify_authentic
    (run : Steps (fun minted call next => signer.act hmac minted call = some next) anyAction [] minted) :
    (∀ token now attempt, Unforged hmac signer minted token →
      signer.verify hmac token now = .ok attempt →
        ∃ old ∈ minted, old.attempt = attempt ∧ now.before old.expiry = true) ∧
    ∀ old ∈ minted, ∀ now,
      (∀ attempt, signer.verify hmac old.token now = .ok attempt → attempt = old.attempt) ∧
      ∀ wanted, signer.verifyFor hmac old.token wanted now = .ok () → wanted = old.attempt := by
  have issued := issued_of_run run
  have own (old : Minted) (member : old ∈ minted) (now : Time) (attempt : Bytes)
      (accepted : signer.verify hmac old.token now = .ok attempt) : attempt = old.attempt := by
    rw [issued old member] at accepted
    exact verify_mintAt accepted
  constructor
  · intro token now attempt ideal accepted
    obtain ⟨subject, exp, macPart, expiryUnix, parts, tagged, named, read, early⟩ := verify_ok accepted
    obtain ⟨old, member, text⟩ := ideal _ _ _ _ _ parts tagged rfl
    obtain ⟨rfl, rfl⟩ := signedText_inj text
    rw [Base64.decode_encode] at named
    rw [Decimal.parseInt_formatInt] at read
    cases named
    cases read
    exact ⟨old, member, rfl, Time.before_of_before_ofUnix early⟩
  · intro old member now
    refine ⟨own old member now, ?_⟩
    intro wanted accepted
    unfold verifyFor at accepted
    split at accepted
    · cases accepted
    · rename_i got verified
      split at accepted
      · rename_i same
        rw [← same]
        exact own old member now got verified
      · cases accepted

def sampleSigner : TokenSigner where
  secret := ascii "0123456789abcdef"
  ttl := 900000000000
  longSecret := by decide +kernel
  positiveTTL := by decide

/-- The HMAC-SHA256 of the one text the sample signer signs. -/
def sampleTag : Bytes :=
  [21, 25, 38, 182, 179, 41, 63, 225, 97, 9, 147, 210, 155, 6, 81, 172, 208, 254, 21, 60, 144, 37, 22, 16,
    162, 189, 208, 224, 61, 84, 152, 81]

def sampleHmac (secret message : Bytes) : Bytes :=
  if secret = ascii "0123456789abcdef" ∧
      message = signedText (ascii "YXR0XzE") (ascii "1700000000") then sampleTag
  else []

def sampleMinted : Minted :=
  ⟨ascii "att_1", Time.ofUnix 1700000000,
    ascii "cnt1.YXR0XzE.1700000000.FRkmtrMpP-FhCZPSmwZRrND-FTyQJRYQor3Q4D1UmFE"⟩

/-- The sample token with a line break in its tag and with the low bits of the last letter set. -/
def wrappedToken : Bytes :=
  ascii "cnt1.YXR0XzE.1700000000.FRkmtrMpP-FhCZPSmwZRrND-\nFTyQJRYQor3Q4D1UmFF"

theorem verify_authentic_wrapped :
    sampleSigner.verify sampleHmac wrappedToken (Time.ofUnix 1699999999) = .ok (ascii "att_1") ∧
      ∃ old ∈ [sampleMinted], old.attempt = ascii "att_1" ∧
        (Time.ofUnix 1699999999).before old.expiry = true := by
  have accepted : sampleSigner.verify sampleHmac wrappedToken (Time.ofUnix 1699999999) =
      .ok (ascii "att_1") := by
    decide +kernel
  have ran : Steps.ofList (sampleSigner.act sampleHmac) (fun _ _ => true) []
      [.mintUntil (ascii "att_1") (Time.ofUnix 1700000000)] = some [sampleMinted] := by
    decide +kernel
  have ideal : Unforged sampleHmac sampleSigner [sampleMinted] wrappedToken := by
    intro version subject exp macPart tag parts _ _
    have split : wrappedToken.splitOn 46 = [ascii "cnt1", ascii "YXR0XzE", ascii "1700000000",
        ascii "FRkmtrMpP-FhCZPSmwZRrND-\nFTyQJRYQor3Q4D1UmFF"] := by
      decide +kernel
    rw [split] at parts
    simp only [List.cons.injEq, and_true] at parts
    rw [← parts.2.1, ← parts.2.2.1]
    exact ⟨sampleMinted, List.mem_singleton_self _, by decide +kernel⟩
  have run : Steps (fun minted call next => sampleSigner.act sampleHmac minted call = some next)
      anyAction [] [sampleMinted] :=
    Steps.of_ofList (fun _ _ _ => trivial) ran
  exact ⟨accepted, (verify_authentic run).1 _ _ _ ideal accepted⟩

end TokenSigner
end CultureNodes.Actors
