import PalmEngine.Lib.DecimalText
import PalmEngine.Lib.Framing

/-!
# Input tokens

A write to a session carries a token that was issued for the session and its current step: a
nonce, the time and a digest over these four, signed with a secret. The token is checked against
the session and the step that the write is for; the nonce and the time are read from the token.

The digest is taken of a text in which the four are joined with a separator. If the session id and
the step id have no separator of their own, a token is accepted for nothing else, whatever nonce
the client sends; otherwise there is always another pair that the token is accepted for.
-/

namespace PalmEngine.Operator

open PalmEngine.Lib

/-- How long a token is valid, in seconds. -/
def tokenTtlSeconds : ℤ := 3600

/-- A digit of a number in hexadecimal. -/
def isHexDigit (c : Char) : Bool := c.isDigit || ('a' ≤ c && c ≤ 'f')

/-- A nonce: eight random bytes in hexadecimal. -/
structure Nonce where
  text : String
  hex : ∀ c ∈ text.toList, isHexDigit c = true
  length_eq : text.toList.length = 16

/-- The signing function: for every secret a message has a digest in hexadecimal, which no other
message has. -/
structure MessageDigest where
  digest : String → String → String
  hex : ∀ secret message, ∀ c ∈ (digest secret message).toList, isHexDigit c = true
  injective : ∀ secret, Function.Injective (digest secret)

/-- An issued token with the step it is for and the time until which it is valid. -/
structure IssuedToken where
  inputToken : String
  stepSlug : String
  expiresAt : String
  deriving DecidableEq, Repr

/-- Two texts are only compared if they are ASCII. -/
inductive TokenError where
  | notAscii
  deriving DecidableEq, Repr

/-- The signed text. -/
def signedMessage (sessionId stepSlug nonce issuedAt : String) : String :=
  sessionId ++ "|" ++ stepSlug ++ "|" ++ nonce ++ "|" ++ issuedAt

/-- The text of a token. -/
def tokenText (nonce issuedAt digest : String) : String := nonce ++ "." ++ issuedAt ++ "." ++ digest

/-- The three parts of a token, the last with all further separators. -/
def splitToken (token : String) : Option (String × String × String) :=
  match cutAt '.' token.toList with
  | none => none
  | some (nonce, rest) =>
    (cutAt '.' rest).map fun cut => (.ofList nonce, .ofList cut.1, .ofList cut.2)

/-- `hmac.compare_digest`. -/
def compareDigest (expected digest : String) : Except TokenError Bool :=
  if (expected.toList ++ digest.toList).all (·.toNat < 128) then .ok (expected = digest)
  else .error .notAscii

section Tokens

variable (d : MessageDigest)

/-- Issue a token bound to a session and a step. -/
def issueInputToken (now : ℤ) (nonce : Nonce) (sessionId stepSlug secret : String)
    (ttlSeconds : ℤ := tokenTtlSeconds) : IssuedToken :=
  let issuedAt := toString now
  let digest := d.digest secret (signedMessage sessionId stepSlug nonce.text issuedAt)
  ⟨tokenText nonce.text issuedAt digest, stepSlug, toString (now + ttlSeconds)⟩

/-- Validate a token for the current step of a session. -/
def validateInputToken (now : ℤ) (token : Option String) (sessionId stepSlug secret : String)
    (ttlSeconds : ℤ := tokenTtlSeconds) : Except TokenError Bool :=
  match token with
  | none => .ok false
  | some token =>
    if token = "" then .ok false
    else
      match splitToken token with
      | none => .ok false
      | some (nonce, issuedAt, digest) =>
        match parseInt issuedAt with
        | none => .ok false
        | some issued =>
          if now > issued + ttlSeconds then .ok false
          else
            let expected := d.digest secret (signedMessage sessionId stepSlug nonce issuedAt)
            compareDigest expected digest

/-- The token with another text in place of its nonce. -/
def replaceNonce (clientNonce token : String) : String :=
  clientNonce ++ .ofList (token.toList.dropWhile (· ≠ '.'))

/-- The separators of a token are no hexadecimal digits. -/
theorem not_mem_of_hex {text : String} (h : ∀ c ∈ text.toList, isHexDigit c = true) {c : Char}
    (hc : isHexDigit c = false) : c ∉ text.toList := fun hmem => by
  rw [h c hmem] at hc
  cases hc

/-- The text of an integer has no separator of a token or of a signed text. -/
theorem not_mem_toString {c : Char} (hdigit : c.isDigit = false) (hsign : c ≠ '-') (n : ℤ) :
    c ∉ (toString n).toList := fun hmem => by
  rcases mem_toString_int hmem with h | h
  · rw [hdigit] at h
    cases h
  · exact hsign h

/-- The characters of a token, framed by its last separator. -/
theorem toList_tokenText (nonce issuedAt digest : String) :
    (tokenText nonce issuedAt digest).toList =
      (nonce.toList ++ '.' :: issuedAt.toList) ++ '.' :: digest.toList := by
  simp [tokenText]

/-- The parts of a token whose nonce and time have no separator. -/
theorem splitToken_tokenText {nonce issuedAt : String} (hnonce : '.' ∉ nonce.toList)
    (hissuedAt : '.' ∉ issuedAt.toList) (digest : String) :
    splitToken (tokenText nonce issuedAt digest) = some (nonce, issuedAt, digest) := by
  rw [splitToken, toList_tokenText, List.append_assoc, List.cons_append, cutAt_append hnonce]
  simp [cutAt_append hissuedAt]

/-- A token splits into three parts that make it up again. -/
theorem splitToken_eq_some {token nonce issuedAt digest : String}
    (h : splitToken token = some (nonce, issuedAt, digest)) :
    token = tokenText nonce issuedAt digest ∧ '.' ∉ nonce.toList ∧ '.' ∉ issuedAt.toList := by
  rw [splitToken] at h
  split at h
  · cases h
  · rename_i front rest hfront
    obtain ⟨⟨middle, back⟩, hmiddle, hparts⟩ := Option.map_eq_some_iff.mp h
    cases hparts
    obtain ⟨htoken, hfree⟩ := cutAt_eq_some_iff.mp hfront
    obtain ⟨hrest, hfree'⟩ := cutAt_eq_some_iff.mp hmiddle
    refine ⟨?_, by simpa using hfree, by simpa using hfree'⟩
    rw [← String.toList_inj, htoken, hrest]
    simp [tokenText]

/-- Replacing the nonce of a token leaves its time and its digest. -/
theorem replaceNonce_tokenText {nonce : String} (h : '.' ∉ nonce.toList)
    (clientNonce issuedAt digest : String) :
    replaceNonce clientNonce (tokenText nonce issuedAt digest) =
      tokenText clientNonce issuedAt digest := by
  have hdrop : (tokenText nonce issuedAt digest).toList.dropWhile (· ≠ '.') =
      '.' :: (issuedAt.toList ++ '.' :: digest.toList) := by
    rw [toList_tokenText, List.append_assoc, List.dropWhile_append_of_pos]
    · simp
    · intro c hc
      have hne : c ≠ '.' := fun heq => h (heq ▸ hc)
      simpa using hne
  rw [replaceNonce, hdrop, ← String.toList_inj]
  simp [tokenText]

/-- Two texts compare as the same if they are ASCII and the same. -/
theorem compareDigest_eq_true {expected digest : String} :
    compareDigest expected digest = .ok true ↔
      (expected.toList ++ digest.toList).all (·.toNat < 128) = true ∧ expected = digest := by
  rw [compareDigest]
  split
  · rename_i hascii
    simp [hascii]
  · rename_i hascii
    exact ⟨fun h => (by cases h), fun h => absurd h.1 hascii⟩

/-- A hexadecimal digit is ASCII. -/
theorem isHexDigit_ascii {c : Char} (h : isHexDigit c = true) : c.toNat < 128 := by
  simp only [isHexDigit, Char.isDigit, Bool.or_eq_true, Bool.and_eq_true, decide_eq_true_eq] at h
  rcases h with ⟨-, h⟩ | ⟨-, h⟩
  · have := UInt32.le_iff_toNat_le.mp h
    exact lt_of_le_of_lt this (by decide)
  · have := UInt32.le_iff_toNat_le.mp (Char.le_def.mp h)
    exact lt_of_le_of_lt this (by decide)

/-- A token is accepted exactly when its time is an integer that is not too long ago and its
digest is the one of the session, the step, its nonce and its time. -/
theorem validateInputToken_eq_true {now : ℤ} {token sessionId stepSlug secret : String}
    {ttlSeconds : ℤ} :
    validateInputToken d now (some token) sessionId stepSlug secret ttlSeconds = .ok true ↔
      ∃ nonce issuedAt, ∃ issued : ℤ,
        splitToken token = some (nonce, issuedAt,
          d.digest secret (signedMessage sessionId stepSlug nonce issuedAt)) ∧
        parseInt issuedAt = some issued ∧ now ≤ issued + ttlSeconds := by
  constructor
  · intro h
    simp only [validateInputToken] at h
    split at h
    · cases h
    · split at h
      · cases h
      · rename_i nonce issuedAt digest hsplit
        split at h
        · cases h
        · rename_i issued hissued
          split at h
          · cases h
          · rename_i hvalid
            obtain ⟨-, rfl⟩ := compareDigest_eq_true.mp h
            exact ⟨nonce, issuedAt, issued, hsplit, hissued, not_lt.mp hvalid⟩
  · rintro ⟨nonce, issuedAt, issued, hsplit, hissued, hvalid⟩
    have hne : token ≠ "" := by
      rintro rfl
      simp [splitToken, cutAt] at hsplit
    have hcompare : compareDigest (d.digest secret (signedMessage sessionId stepSlug nonce issuedAt))
        (d.digest secret (signedMessage sessionId stepSlug nonce issuedAt)) = .ok true := by
      refine compareDigest_eq_true.mpr ⟨List.all_eq_true.mpr fun c hc => ?_, rfl⟩
      rcases List.mem_append.mp hc with hc | hc <;>
        exact decide_eq_true (isHexDigit_ascii (d.hex _ _ c hc))
    simp only [validateInputToken, hne, if_false, hsplit, hissued, if_neg (not_lt.mpr hvalid),
      hcompare]

variable {now issuedAt : ℤ} {nonce : Nonce} {sessionId stepSlug sessionId' stepSlug' : String}
  {secret clientNonce : String} {ttlSeconds : ℤ}

/-- A token is accepted with a nonce of the client exactly when it is still valid and the signed
text is the one it was issued for; the nonce has no separator of a token then. -/
theorem validate_replaceNonce_iff :
    validateInputToken d now
        (some (replaceNonce clientNonce
          (issueInputToken d issuedAt nonce sessionId stepSlug secret).inputToken))
        sessionId' stepSlug' secret ttlSeconds = .ok true ↔
      '.' ∉ clientNonce.toList ∧ now ≤ issuedAt + ttlSeconds ∧
        signedMessage sessionId stepSlug nonce.text (toString issuedAt) =
          signedMessage sessionId' stepSlug' clientNonce (toString issuedAt) := by
  have htime : '.' ∉ (toString issuedAt).toList := not_mem_toString (by decide) (by decide) issuedAt
  rw [issueInputToken, replaceNonce_tokenText (not_mem_of_hex nonce.hex (by decide)),
    validateInputToken_eq_true]
  constructor
  · rintro ⟨nonce', issuedAt', issued, hsplit, hissued, hvalid⟩
    obtain ⟨htoken, hnonce, htime'⟩ := splitToken_eq_some hsplit
    rw [← String.toList_inj, toList_tokenText, toList_tokenText] at htoken
    have hdigest := fun message => not_mem_of_hex (d.hex secret message) (c := '.') (by decide)
    obtain ⟨hfront, hmessage⟩ := (framed_inj_of_last (hdigest _) (hdigest _)).mp htoken
    obtain ⟨hclient, hnumber⟩ := (framed_inj_of_last htime htime').mp hfront
    obtain rfl := String.toList_inj.mp hclient
    obtain rfl := String.toList_inj.mp hnumber
    rw [parseInt_toString] at hissued
    cases hissued
    exact ⟨hnonce, hvalid, d.injective secret (String.toList_inj.mp hmessage)⟩
  · rintro ⟨hnonce, hvalid, hmessage⟩
    rw [hmessage]
    exact ⟨clientNonce, toString issuedAt, issuedAt, splitToken_tokenText hnonce htime _,
      parseInt_toString issuedAt, hvalid⟩

/-- Two signed texts with one time are the same if what stands before the time is. -/
theorem signedMessage_eq_iff {nonce nonce' time : String} :
    signedMessage sessionId stepSlug nonce time = signedMessage sessionId' stepSlug' nonce' time ↔
      sessionId.toList ++ '|' :: (stepSlug.toList ++ '|' :: nonce.toList) =
        sessionId'.toList ++ '|' :: (stepSlug'.toList ++ '|' :: nonce'.toList) := by
  have htext : ∀ s t n : String, (signedMessage s t n time).toList =
      (s.toList ++ '|' :: (t.toList ++ '|' :: n.toList)) ++ '|' :: time.toList := fun s t n => by
    simp [signedMessage]
  rw [← String.toList_inj, htext, htext, List.append_left_inj]

/-- The session and the step can be read from a signed text if they and the nonce have no
separator. -/
theorem signedMessage_binds {nonce' time : String} (hsession : '|' ∉ sessionId.toList)
    (hstep : '|' ∉ stepSlug.toList)
    (h : signedMessage sessionId stepSlug nonce.text time =
      signedMessage sessionId' stepSlug' nonce' time) :
    sessionId' = sessionId ∧ stepSlug' = stepSlug := by
  rw [signedMessage_eq_iff] at h
  have hnonce : '|' ∉ nonce.text.toList := not_mem_of_hex nonce.hex (by decide)
  have hcount := congrArg (List.count '|') h
  simp only [List.count_append, List.count_cons_self, List.count_eq_zero.mpr hsession,
    List.count_eq_zero.mpr hstep, List.count_eq_zero.mpr hnonce] at hcount
  have hsession' : '|' ∉ sessionId'.toList := List.count_eq_zero.mp (by omega)
  have hstep' : '|' ∉ stepSlug'.toList := List.count_eq_zero.mp (by omega)
  obtain ⟨hsame, hrest⟩ := (framed_inj hsession hsession').mp h
  obtain ⟨hsame', -⟩ := (framed_inj hstep hstep').mp hrest
  exact ⟨(String.toList_inj.mp hsame).symm, (String.toList_inj.mp hsame').symm⟩

/-- A signed text with a separator in the session or the step is the one of another pair. -/
theorem signedMessage_shifts (h : '|' ∈ sessionId.toList ∨ '|' ∈ stepSlug.toList)
    (nonce time : String) :
    ∃ sessionId' stepSlug', sessionId' ≠ sessionId ∧
      signedMessage sessionId stepSlug nonce time =
        signedMessage sessionId' stepSlug' nonce time := by
  simp only [signedMessage_eq_iff]
  rcases h with h | h
  · obtain ⟨front, back, hsplit⟩ := List.append_of_mem h
    refine ⟨.ofList front, .ofList (back ++ '|' :: stepSlug.toList), fun heq => ?_, ?_⟩
    · rw [← heq, String.toList_ofList] at hsplit
      simpa using congrArg List.length hsplit
    · simp [hsplit]
  · obtain ⟨front, back, hsplit⟩ := List.append_of_mem h
    refine ⟨sessionId ++ "|" ++ .ofList front, .ofList back, fun heq => ?_, ?_⟩
    · have hlength := congrArg (fun s => s.toList.length) heq
      simp at hlength
    · simp [hsplit]

/-- A token binds the session and the step that it was issued for, whatever nonce the client
sends: it is accepted for nothing else. -/
def BindsToken (now issuedAt : ℤ) (nonce : Nonce) (sessionId stepSlug secret : String)
    (ttlSeconds : ℤ) : Prop :=
  ∀ sessionId' stepSlug' clientNonce,
    validateInputToken d now
        (some (replaceNonce clientNonce
          (issueInputToken d issuedAt nonce sessionId stepSlug secret).inputToken))
        sessionId' stepSlug' secret ttlSeconds = .ok true →
      sessionId' = sessionId ∧ stepSlug' = stepSlug

/-- A token binds its session and its step exactly when it is no longer valid or neither of them
has the separator of the signed text. -/
theorem bindsToken_iff (now issuedAt : ℤ) (nonce : Nonce) (sessionId stepSlug secret : String)
    (ttlSeconds : ℤ) :
    BindsToken d now issuedAt nonce sessionId stepSlug secret ttlSeconds ↔
      issuedAt + ttlSeconds < now ∨ ('|' ∉ sessionId.toList ∧ '|' ∉ stepSlug.toList) := by
  constructor
  · intro hbinds
    by_contra hnot
    rw [not_or, not_lt, not_and_or, not_not, not_not] at hnot
    obtain ⟨hvalid, hseparator⟩ := hnot
    obtain ⟨sessionId', stepSlug', hne, hmessage⟩ :=
      signedMessage_shifts hseparator nonce.text (toString issuedAt)
    have haccepted := hbinds sessionId' stepSlug' nonce.text ((validate_replaceNonce_iff d).mpr
      ⟨not_mem_of_hex nonce.hex (by decide), hvalid, hmessage⟩)
    exact hne haccepted.1
  · rintro (hexpired | ⟨hsession, hstep⟩) sessionId' stepSlug' clientNonce haccepted
    · exact absurd ((validate_replaceNonce_iff d).mp haccepted).2.1 (not_le.mpr hexpired)
    · exact signedMessage_binds hsession hstep ((validate_replaceNonce_iff d).mp haccepted).2.2

end Tokens

/-- The secret that is used where none is configured. -/
def devSecret : String := "palm-dev-mutation-secret"

/-- A digest that no two messages share: every character in unary. -/
def unaryDigest (message : List Char) : List Char :=
  message.flatMap fun c => List.replicate c.toNat '0' ++ ['1']

/-- The message can be read from its unary digest. -/
theorem unaryDigest_injective : Function.Injective unaryDigest := by
  intro message
  induction message with
  | nil =>
    intro other h
    cases other with
    | nil => rfl
    | cons c rest => simp [unaryDigest] at h
  | cons c rest ih =>
    intro other h
    cases other with
    | nil => simp [unaryDigest] at h
    | cons c' rest' =>
      have hfree : ∀ n : ℕ, '1' ∉ List.replicate n '0' := fun n hmem =>
        absurd (List.eq_of_mem_replicate hmem) (by decide)
      simp only [unaryDigest, List.flatMap_cons, List.append_assoc, List.singleton_append] at h
      obtain ⟨hchar, hrest⟩ := (framed_inj (hfree _) (hfree _)).mp h
      have hcode : c.toNat = c'.toNat := by simpa using congrArg List.length hchar
      rw [Char.toNat_inj.mp hcode, ih hrest]

/-- A unary digest is made of zeros and ones. -/
theorem mem_unaryDigest {message : List Char} {c : Char} (h : c ∈ unaryDigest message) :
    c = '0' ∨ c = '1' := by
  obtain ⟨d, -, hmem⟩ := List.mem_flatMap.mp h
  rcases List.mem_append.mp hmem with hzero | hone
  · exact .inl (List.eq_of_mem_replicate hzero)
  · exact .inr (List.mem_singleton.mp hone)

/-- A message that is signed, with its digest under the default secret. -/
def reviewMessage : String := "inst-1|review|confirm|0123456789abcdef|1700000000"

/-- Its digest. -/
def reviewDigest : String := "497898c45992ec7757753c2050401107"

/-- A signing function with the digest of this message, and unary digests for the others. -/
def sampleDigest : MessageDigest where
  digest _ message :=
    if message = reviewMessage then reviewDigest else .ofList (unaryDigest message.toList)
  hex _ message c hc := by
    split at hc
    · exact List.all_eq_true.mp (by decide : reviewDigest.toList.all isHexDigit = true) c hc
    · rw [String.toList_ofList] at hc
      rcases mem_unaryDigest hc with rfl | rfl <;> decide
  injective _ message other h := by
    have hapart : ∀ cs : List Char, reviewDigest ≠ .ofList (unaryDigest cs) := fun cs heq => by
      have hmem : '9' ∈ reviewDigest.toList := by decide
      rw [heq, String.toList_ofList] at hmem
      rcases mem_unaryDigest hmem with h | h <;> exact absurd h (by decide)
    dsimp only at h
    split at h <;> split at h
    · simp_all
    · exact absurd h (hapart _)
    · exact absurd h.symm (hapart _)
    · exact String.toList_inj.mp (unaryDigest_injective (String.ofList_injective h))

/-- A nonce. -/
def sampleNonce : Nonce where
  text := "0123456789abcdef"
  hex := List.all_eq_true.mp (by decide)
  length_eq := by decide

/-- A token that was issued for a step whose id has a separator is accepted for another step of the
session: the client moves the end of the id into the nonce. -/
theorem bindsToken_fails :
    ¬BindsToken sampleDigest 1700000000 1700000000 sampleNonce "inst-1" "review|confirm" devSecret
      tokenTtlSeconds := by
  intro hbinds
  have haccepted := hbinds "inst-1" "review" "confirm|0123456789abcdef"
    ((validate_replaceNonce_iff sampleDigest).mpr ⟨by decide, by decide, by decide⟩)
  exact absurd haccepted.2 (by decide)

end PalmEngine.Operator
