import SignedHttp.Crypto.Suite
import SignedHttp.Message.Basic
import SignedHttp.Text.Delimited

/-!
# Suites with One Signature

What is said of signatures is said for every suite with a property. Two properties are
asked for: that the suite accepts under the public key of a signer what was signed under
the private one, and that it accepts nothing else. For each of them there is a smallest
suite that has it and still agrees with a real one somewhere. Both know one key pair, one
text and the signature of that text. `Suite.recorded` gives zeros for everything else, so
that everything signed is accepted; `Suite.single` refuses everything else.

`Sample` is a request that was signed, with the suite of its signature.

## Main definitions

* `Suite.recorded`: The suite of one recorded signature.
* `Suite.single`: The suite that accepts one signature only.
* `Sample.signed`: A signed request.

## Theorems

* `recorded_verify_sign`: What was signed is accepted.
* `single_verify_iff`: Nothing but the one signature is accepted.
-/

namespace SignedHttp

/-- All bytes zero. -/
def Octets.zero (n : Nat) : Octets n := ⟨List.replicate n 0, List.length_replicate⟩

namespace Suite

/-- The suite that signs one text under one key as recorded, and everything else with zeros. -/
def recorded (key : PrivateKey) (pub : PublicKey) (text : Bytes) (signature : RawSignature) :
    Suite :=
  { publicKey := fun k => if k = key then pub else .zero 32
    sign := fun k t => if k = key ∧ t = text then signature else .zero 64
    verify := fun p t s => if p = pub ∧ t = text then s == signature else s == .zero 64
    fingerprint := Sha2.sha256 }

theorem recorded_publicKey (key : PrivateKey) (pub : PublicKey) (text : Bytes)
    (signature : RawSignature) : (recorded key pub text signature).publicKey key = pub := by
  simp only [recorded, if_true]

/-- What this suite signs under any key it accepts under the public key of that one. The recorded
public key has to differ from zeros, because zeros stand for all others. -/
theorem recorded_verify_sign (key : PrivateKey) {pub : PublicKey} (text : Bytes)
    (signature : RawSignature) (hpub : pub ≠ .zero 32) (k : PrivateKey) (t : Bytes) :
    (recorded key pub text signature).verify ((recorded key pub text signature).publicKey k) t
      ((recorded key pub text signature).sign k t) = true := by
  unfold recorded
  by_cases hk : k = key
  · by_cases ht : t = text
    · simp only [hk, ht, and_self, if_true, beq_self_eq_true]
    · simp only [hk, ht, and_false, if_false, beq_self_eq_true]
  · -- Another key has zeros for its public key, and zeros are not the recorded one.
    have hzero : ¬ (Octets.zero 32 = pub ∧ t = text) := fun h => hpub h.1.symm
    simp only [hk, false_and, if_false, hzero, beq_self_eq_true]

/-- The suite that accepts one signature of one text under one key, and nothing else. -/
def single (pub : PublicKey) (text : Bytes) (signature : RawSignature) : Suite :=
  { publicKey := fun _ => pub
    sign := fun _ _ => signature
    verify := fun p t s => p == pub && t == text && s == signature
    fingerprint := Sha2.sha256 }

theorem single_sign (pub : PublicKey) (text : Bytes) (signature : RawSignature)
    (key : PrivateKey) (t : Bytes) : (single pub text signature).sign key t = signature := rfl

/-- Three things have to agree for a signature to be accepted: the key, the text and the signature.
-/
theorem single_verify_iff {pub p : PublicKey} {text t : Bytes} {signature s : RawSignature} :
    (single pub text signature).verify p t s = true ↔ p = pub ∧ t = text ∧ s = signature := by
  simp only [single, Bool.and_eq_true, beq_iff_eq, and_assoc]

end Suite

namespace Sample

/-- Bytes in hexadecimal, with zeros in the place of a text that has another length. -/
def octets (n : Nat) (text : Bytes) : Octets n := (Octets.ofHex? n text).getD (.zero n)

def key : PrivateKey :=
  octets 32 "9d61b19deffd5a60ba844af492ec2cc44449c5697b326919703bac031cae7f60"

def publicKey : PublicKey :=
  octets 32 "d75a980182b10ab7d54bfed3c964073a0ee172f3daa62325af021a68f707511a"

def nonce : Bytes := "3fa85f64-5717-4562-b3fc-2c963f66afa6"

/-- What is said of the signature. -/
def params : Bytes :=
  "(\"@method\" \"date\");created=1700000000;keyid=\"k\";alg=\"ed25519\";nonce=\"" ++ nonce ++ "\""

/-- The text that was signed. -/
def text : Bytes := "\"@method\": GET\n\"date\": today\n\"@signature-params\": " ++ params

def signature : RawSignature :=
  octets 64 ("35de6be881d38a78aadaefc33ccfd69df2454127f73179dbacf366653af8d098" ++
    "79d0c64ece0167d2e42e7a15c3d4f987f45a493c9be7eed4540a9633cc269509")

/-- The suite of the signature. -/
def suite : Suite := .single publicKey text signature

/-- The request before it was signed. -/
def request : Message := ⟨.get, "http://h/", ⟨[("date", "today")]⟩, none⟩

/-- The request with a signature, its own or another one. -/
def withSignature (signature : RawSignature) : Message :=
  (request.withHeader "signature-input" ("sig1=" ++ params)).withHeader "signature"
    (Delimited.render "sig1" signature.toHex)

/-- The signed request. -/
def signed : Message := withSignature signature

end Sample

end SignedHttp
