import EarnedAutonomy.Python.Encoding

/-!
# Signatures and hashes

`crypto/signing.py` wraps Ed25519 and the ledger hashes with SHA-256.  Both are
parameters of the model.  A `Primitives` has what the code relies on: a
signature verifies under the public key of the key that made it, and a hash is
64 hexadecimal digits.  Unforgeability is a property of runs, not of the
functions, and is stated where a result needs it.
-/

namespace EarnedAutonomy

/-- A digit of `hexdigest`. -/
def isHexDigit (c : Char) : Bool := c.isDigit || ('a' ≤ c && c ≤ 'f')

/-- Ed25519 over hexadecimal texts, and SHA-256. -/
structure Primitives where
  publicKey : String → String
  sign : String → Bytes → String
  verify : String → Bytes → String → Bool
  verify_sign : ∀ key message, verify (publicKey key) message (sign key message) = true
  sha256 : Bytes → String
  sha256_hex : ∀ message, (sha256 message).toList.length = 64 ∧
    ∀ c ∈ (sha256 message).toList, isHexDigit c = true

/-- A private key with its public key. -/
structure KeyPair (P : Primitives) where
  privateKeyHex : String
  publicKeyHex : String
  matched : publicKeyHex = P.publicKey privateKeyHex

namespace KeyPair

variable {P : Primitives}

/-- The pair of a private key. -/
def ofPrivate (P : Primitives) (privateKeyHex : String) : KeyPair P :=
  ⟨privateKeyHex, P.publicKey privateKeyHex, rfl⟩

def sign (k : KeyPair P) (message : Bytes) : String := P.sign k.privateKeyHex message

def verify (k : KeyPair P) (message : Bytes) (signature : String) : Bool :=
  P.verify k.publicKeyHex message signature

@[simp] theorem verify_sign (k : KeyPair P) (message : Bytes) :
    k.verify message (k.sign message) = true := by
  rw [verify, sign, k.matched]
  exact P.verify_sign _ _

end KeyPair

/-- Primitives for runs on concrete inputs: a signature is the name of its key. -/
def Primitives.named : Primitives where
  publicKey key := key
  sign key _ := key
  verify key _ signature := key = signature
  verify_sign _ _ := decide_eq_true rfl
  sha256 _ := String.ofList (List.replicate 64 '0')
  sha256_hex _ := by
    rw [String.toList_ofList]
    refine ⟨List.length_replicate, fun c hc => ?_⟩
    rw [List.eq_of_mem_replicate hc]
    rfl

/-- A text read as a number to base 131, in 64 digits. -/
def textDigest (message : Bytes) : String :=
  let code := message.toByteArray.data.toList.foldl (fun acc b => (131 * acc + b.toNat) % 10 ^ 64) 7
  let digits := Nat.toDigits 10 code
  String.ofList ((List.replicate 64 '0' ++ digits).drop digits.length)

theorem textDigest_hex (message : Bytes) : (textDigest message).toList.length = 64 ∧
    ∀ c ∈ (textDigest message).toList, isHexDigit c = true := by
  unfold textDigest
  dsimp only
  rw [String.toList_ofList]
  refine ⟨?_, fun c hc => ?_⟩
  · rw [List.length_drop, List.length_append, List.length_replicate]
    omega
  rcases List.mem_append.mp (List.mem_of_mem_drop hc) with hzero | hdigit
  · rw [List.eq_of_mem_replicate hzero]
    rfl
  · have hc : c.isDigit = true := Nat.isDigit_of_mem_toDigits (by omega) (by omega) hdigit
    simp [isHexDigit, hc]

/-- Primitives that tell messages apart: a signature is the key with the message,
and a hash is a number of the text. -/
def Primitives.tagged : Primitives where
  publicKey key := key
  sign key message := key ++ ":" ++ message
  verify key message signature := signature = key ++ ":" ++ message
  verify_sign _ _ := decide_eq_true rfl
  sha256 := textDigest
  sha256_hex := textDigest_hex

/-- The canonical bytes of a `dict` begin an object, and no hash does. -/
theorem canonicalBytes_dict_ne_sha256 {P : Primitives} (d : List (PyKey × PyVal)) (m : Bytes) :
    canonicalBytes (.dict d) ≠ .ok (P.sha256 m) := by
  intro h
  obtain ⟨_, _, hbytes⟩ := canonicalBytes_eq_ok_iff.mp h
  obtain ⟨_, hhex⟩ := P.sha256_hex m
  have hbrace : isHexDigit '{' = true := by
    refine hhex _ ?_
    rw [hbytes, String.toList_ofList, canon]
    exact CanonicalJson.brace_mem_render_obj _
  exact absurd hbrace (by decide)

end EarnedAutonomy
