import SoapServer.Wssec.Authentication

/-! The digest is computed over the bytes of a nonce and the cache holds its text: two
tokens, one after the other, whose nonces decode alike. -/

set_option autoImplicit false

namespace SoapServer.Wssec

open Markup (Text)
open RotatingNonceCache (replayDetected)

variable {ext : Externals} {securityBytes : Text} {getPassword : Text → Option Text}
  {cache : RotatingNonceCache} {toleranceSecs now : Int} {instant : Nat}

/-- Two digest tokens that differ at most in how they spell one nonce. -/
structure DigestAlike (ext : Externals) (first second : UsernameToken)
    (firstNonce secondNonce : Text) (nonceBytes : List UInt8) : Prop where
  digest : first.passwordType = .digest ∧ second.passwordType = .digest
  username : second.username = first.username
  password : second.password = first.password
  created : second.created = first.created
  nonces : first.nonce = some firstNonce ∧ second.nonce = some secondNonce
  decoded : decodeNonce ext firstNonce = .ok nonceBytes ∧ decodeNonce ext secondNonce = .ok nonceBytes

theorem computeDigest_congr {firstNonce secondNonce : Text}
    (same : decodeNonce ext secondNonce = decodeNonce ext firstNonce) (created password : Text) :
    computeDigest ext secondNonce created password = computeDigest ext firstNonce created password := by
  rw [computeDigest, computeDigest, same]

/-- The digest does not see the spelling of a nonce. -/
theorem DigestAlike.authenticate {first second : UsernameToken} {firstNonce secondNonce : Text}
    {nonceBytes : List UInt8}
    (alike : DigestAlike ext first second firstNonce secondNonce nonceBytes)
    {firstBytes secondBytes : Text} (read : parseUsernameToken ext secondBytes = .ok second)
    (accepted : authenticate ext firstBytes getPassword toleranceSecs now = .ok first) :
    authenticate ext secondBytes getPassword toleranceSecs now = .ok second := by
  obtain ⟨_, password, known, proves, fresh⟩ := authenticate_ok_iff.mp accepted
  refine authenticate_ok_iff.mpr ⟨read, password, by rw [alike.username]; exact known, ?_, ?_⟩
  · unfold UsernameToken.Proves at proves ⊢
    simp only [alike.digest] at proves ⊢
    obtain ⟨nonce, created, hasNonce, hasCreated, digest⟩ := proves
    obtain rfl : firstNonce = nonce := Option.some.inj (alike.nonces.1.symm.trans hasNonce)
    refine ⟨secondNonce, created, alike.nonces.2, by rw [alike.created]; exact hasCreated, ?_⟩
    rw [computeDigest_congr (alike.decoded.2.trans alike.decoded.1.symm), alike.password]
    exact digest
  · unfold UsernameToken.Fresh at fresh ⊢
    rw [alike.created]
    exact fresh

/-- A token is refused when it repeats the nonce bytes of the token accepted just before. -/
def NonceBytesRefused (ext : Externals) : Prop :=
  ∀ (firstBytes secondBytes : Text) (getPassword : Text → Option Text) (cache : RotatingNonceCache)
    (toleranceSecs now : Int) (instant : Nat) (first second : UsernameToken)
    (firstNonce secondNonce : Text) (nonceBytes : List UInt8) (user : Text),
    parseUsernameToken ext firstBytes = .ok first →
    parseUsernameToken ext secondBytes = .ok second →
    DigestAlike ext first second firstNonce secondNonce nonceBytes →
    (validateUsernameToken ext firstBytes getPassword cache toleranceSecs now instant).1 = .ok user →
    (validateUsernameToken ext secondBytes getPassword
      (validateUsernameToken ext firstBytes getPassword cache toleranceSecs now instant).2
      toleranceSecs now instant).1 = senderFault replayDetected

/-- The second of two tokens that decode alike is refused exactly when its nonce is
spelled like the first, or that spelling was in a bucket before and still is. -/
theorem nonce_bytes_refused_iff {firstBytes secondBytes : Text} {first second : UsernameToken}
    {firstNonce secondNonce : Text} {nonceBytes : List UInt8} {user : Text}
    (firstRead : parseUsernameToken ext firstBytes = .ok first)
    (secondRead : parseUsernameToken ext secondBytes = .ok second)
    (alike : DigestAlike ext first second firstNonce secondNonce nonceBytes)
    (accepted : (validateUsernameToken ext firstBytes getPassword cache toleranceSecs now instant).1 = .ok user) :
    (validateUsernameToken ext secondBytes getPassword
      (validateUsernameToken ext firstBytes getPassword cache toleranceSecs now instant).2
      toleranceSecs now instant).1 = senderFault replayDetected ↔
    secondNonce = firstNonce ∨ secondNonce ∈ (cache.rotated instant).current ∨
      (secondNonce ∈ (cache.rotated instant).previous ∧
        (cache.rotated instant).current.card < cache.maxEntries) := by
  obtain ⟨token, authenticated, _, room⟩ := validateUsernameToken_ok_iff.mp accepted
  obtain rfl : first = token := Except.ok.inj (firstRead.symm.trans (authenticate_ok_iff.mp authenticated).1)
  obtain ⟨positive, unseen⟩ := room firstNonce alike.nonces.1
  rw [validateUsernameToken_of_ok authenticated,
    validateUsernameToken_of_ok (alike.authenticate secondRead authenticated)]
  simp only [alike.nonces, checkNonce]
  rw [cache.checkAndInsert_eq positive, if_neg unseen]
  -- no rotation is due for the second token, which arrives at the same instant
  have settled : (((cache.rotated instant).makeRoom instant).insert firstNonce).due instant = 0 :=
    RotatingNonceCache.due_makeRoom_insert positive firstNonce
  have sameEntries : (cache.rotated instant).maxEntries = cache.maxEntries :=
    RotatingNonceCache.rotated_maxEntries
  have inserted : (((cache.rotated instant).makeRoom instant).insert firstNonce).contains secondNonce ↔ _ :=
    RotatingNonceCache.makeRoom_insert_contains firstNonce secondNonce
  have stillPositive : 0 < (((cache.rotated instant).makeRoom instant).insert firstNonce).halfWindowSecs := by
    simpa using positive
  rw [RotatingNonceCache.checkAndInsert_eq stillPositive, RotatingNonceCache.rotated_of_due settled,
    ← sameEntries, ← inserted]
  split
  · simp_all [senderFault, Except.map]
  · simp_all [senderFault, Except.map]

theorem new_accepts {token : UsernameToken} {header : Text}
    (authenticated : authenticate vector header adminOnly 300 vectorCreatedDt = .ok token) :
    (validateUsernameToken vector header adminOnly (.new 150 0) 300 vectorCreatedDt 0).1 =
      .ok token.username := by
  refine validateUsernameToken_ok_iff.mpr ⟨token, authenticated, rfl,
    fun nonce _ => ⟨by decide, ?_⟩⟩
  simp [RotatingNonceCache.rotated_contains_iff, RotatingNonceCache.new,
    RotatingNonceCache.withMaxEntries]

theorem digestToken_alike {nonce : Text}
    (decoded : decodeNonce vector nonce = .ok vectorNonceBytes) :
    DigestAlike vector (digestToken vectorNonce) (digestToken nonce) vectorNonce nonce vectorNonceBytes :=
  ⟨⟨rfl, rfl⟩, rfl, rfl, rfl, ⟨rfl, rfl⟩, vectorNonce_decoded, decoded⟩

/-- The nonce of the vector without its padding. -/
def unpaddedNonce : Text := "AAECAwQFBgcICQoLDA0ODw".toList

theorem unpaddedNonce_plain : Plain unpaddedNonce := by decide +kernel

theorem unpaddedNonce_decoded :
    decodeNonce vector unpaddedNonce = .ok vectorNonceBytes := by decide +kernel

/-- A cache that has seen the spelling without padding. -/
def spellingSeen : RotatingNonceCache := (checkNonce 0 (some unpaddedNonce) (.new 150 0)).2

/-- Between two nonces without padding, the same bytes are accepted once with it. -/
theorem otherSpelling_refused :
    (validateUsernameToken vector (digestToken vectorNonce).header adminOnly spellingSeen 300
      vectorCreatedDt 0).1 = .ok (digestToken vectorNonce).username ∧
    (validateUsernameToken vector (digestToken unpaddedNonce).header adminOnly
      (validateUsernameToken vector (digestToken vectorNonce).header adminOnly spellingSeen 300
        vectorCreatedDt 0).2
      300 vectorCreatedDt 0).1 = senderFault replayDetected := by
  have accepted : (validateUsernameToken vector (digestToken vectorNonce).header adminOnly spellingSeen 300
      vectorCreatedDt 0).1 = .ok (digestToken vectorNonce).username := by
    have authenticated : authenticate vector (digestToken vectorNonce).header adminOnly 300 vectorCreatedDt = _ :=
      digestToken_authenticates vectorNonce_plain vectorNonce_decoded (by decide)
    rw [validateUsernameToken_of_ok authenticated]
    have fresh : (checkNonce 0 (some vectorNonce) spellingSeen).1 = .ok () := by decide +kernel
    rw [show (digestToken vectorNonce).nonce = some vectorNonce from rfl, fresh]
    rfl
  refine ⟨accepted, ?_⟩
  exact (nonce_bytes_refused_iff (digestToken_read vectorNonce_plain) (digestToken_read unpaddedNonce_plain)
    (digestToken_alike unpaddedNonce_decoded) accepted).mpr (.inr (.inl (by decide +kernel)))

/-- An accepted nonce is accepted once more when its padding is left out. -/
theorem unpadded_nonce_accepted : ¬ NonceBytesRefused vector := by
  intro refused
  have plain := unpaddedNonce_plain
  have decoded := unpaddedNonce_decoded
  have authenticated : authenticate vector (digestToken vectorNonce).header adminOnly 300 vectorCreatedDt = _ :=
    digestToken_authenticates vectorNonce_plain vectorNonce_decoded (by decide)
  have claimed := refused _ _ adminOnly (.new 150 0) 300 vectorCreatedDt 0 _ _ _ _ _ _
    (digestToken_read vectorNonce_plain) (digestToken_read plain) (digestToken_alike decoded)
    (new_accepts authenticated)
  rw [validateUsernameToken_of_ok (digestToken_authenticates plain decoded (by decide)),
    validateUsernameToken_of_ok authenticated] at claimed
  have again : (checkNonce 0 (some unpaddedNonce) (checkNonce 0 (some vectorNonce) (.new 150 0)).2).1 =
      .ok () := by decide +kernel
  rw [show (digestToken unpaddedNonce).nonce = some unpaddedNonce from rfl,
    show (digestToken vectorNonce).nonce = some vectorNonce from rfl, again] at claimed
  cases claimed

end SoapServer.Wssec
