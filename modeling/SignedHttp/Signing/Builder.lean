import SignedHttp.Signing.Config

/-!
# Building a Configuration

A configuration is put together by steps, in any order, starting from the standard
security profile. A profile stands for components and a digest algorithm, and
replaces what was chosen before.

The private key is given as a key or as raw bytes; the later one counts. Raw bytes
are looked at only at the end (`SigningBuilder.build`), where their length is
checked, and then everything else.

## Main definitions

* `SecurityProfile`: Common choices of components.
* `SigningBuilder`: A configuration in the making.
* `SigningBuilder.Step`, `SigningBuilder.apply`: The steps.
* `SigningBuilder.build`: The finished configuration, if it is a valid one.
-/

namespace SignedHttp

/-- A common choice of components and digest algorithm. -/
inductive SecurityProfile
  | minimal
  | standard
  | strict
  deriving DecidableEq, Repr

namespace SecurityProfile

def name : SecurityProfile → Bytes
  | minimal => "minimal"
  | standard => "standard"
  | strict => "strict"

def parse? (name : Bytes) : Option SecurityProfile :=
  [minimal, standard, strict].find? (·.name == name)

def components : SecurityProfile → Components
  | minimal => .create true true [] false
  | standard => .create true true ["content-type"] true
  | strict =>
    .create true true ["content-type", "content-length", "user-agent", "authorization"] true

def digestAlgorithm : SecurityProfile → DigestAlgorithm
  | minimal => .sha256
  | standard => .sha256
  | strict => .sha512

end SecurityProfile

/-- The private key that raw bytes are. -/
def keyOfBytes (raw : Bytes) : Except SigningError PrivateKey :=
  match Octets.ofBytes? 32 raw with
  | none => .error (.privateKeyLength raw.length)
  | some key => usableKey key

/-- A configuration in the making. -/
structure SigningBuilder where
  config : SigningConfig
  /-- The bytes of the private key, if it was given as bytes. -/
  rawKey : Option Bytes := none

namespace SigningBuilder

/-- A step in making a configuration. -/
inductive Step
  | profile (p : SecurityProfile)
  | keyId (id : Bytes)
  | rawKey (bytes : Bytes)
  | privateKey (key : PrivateKey)
  | method (covered : Bool)
  | targetUri (covered : Bool)
  | headers (names : List Bytes)
  | addHeader (name : Bytes)
  | contentDigest (covered : Bool) (algorithm : DigestAlgorithm)
  | strictHeaders (strict : Bool)
  | requireHeader (name : Bytes)
  | label (label : Bytes)
  | nonces (feed : Feed Bytes)
  | timestamps (feed : Feed Int)

/-- The builder with another configuration. -/
def change (f : SigningConfig → SigningConfig) (b : SigningBuilder) : SigningBuilder :=
  { b with config := f b.config }

/-- The builder with other components. -/
def changeComponents (f : Components → Components) : SigningBuilder → SigningBuilder :=
  change fun c => { c with components := f c.components }

/-- The configuration with the components and the digest algorithm of a profile. -/
def applyProfile (p : SecurityProfile) (c : SigningConfig) : SigningConfig :=
  { c with components := p.components, digestAlgorithm := p.digestAlgorithm }

/-- The configuration with a header that every message must have, and that is covered. -/
def requireHeader (name : Bytes) (c : SigningConfig) : SigningConfig :=
  let name := name.lower
  { c with
    requiredHeaders :=
      if c.requiredHeaders.contains name then c.requiredHeaders
      else c.requiredHeaders ++ [name]
    components := c.components.addHeader name }

/-- The builder after a step. -/
def apply : Step → SigningBuilder → SigningBuilder
  | .profile p => change (applyProfile p)
  | .keyId id => change fun c => { c with keyId := id }
  | .rawKey bytes => fun b =>
    { config := { b.config with privateKey := none }, rawKey := some bytes }
  | .privateKey key => fun b =>
    { config := { b.config with privateKey := some key }, rawKey := none }
  | .method covered => changeComponents fun c => { c with method := covered }
  | .targetUri covered => changeComponents fun c => { c with targetUri := covered }
  | .headers names => changeComponents (·.setHeaders names)
  | .addHeader name => changeComponents (·.addHeader name)
  | .contentDigest covered algorithm => change fun c =>
    { c with
      components := { c.components with contentDigest := covered }
      digestAlgorithm := algorithm }
  | .strictHeaders strict => change fun c => { c with strictHeaders := strict }
  | .requireHeader name => change (requireHeader name)
  | .label label => change fun c => { c with label }
  | .nonces feed => change fun c => { c with nonces := some feed }
  | .timestamps feed => change fun c => { c with timestamps := some feed }

/-- The builder before any step. -/
def initial : SigningBuilder := ⟨applyProfile .standard {}, none⟩

/-- The builder after some steps. -/
def run (steps : List Step) (b : SigningBuilder) : SigningBuilder :=
  steps.foldl (fun b s => b.apply s) b

/-- The configuration with the private key in place, whatever else is wrong with it. -/
def keyed (b : SigningBuilder) : Except SigningError SigningConfig :=
  match b.rawKey with
  | none => .ok b.config
  | some raw => (keyOfBytes raw).map fun key => { b.config with privateKey := some key }

/-- The configuration, if it is valid. -/
def build (b : SigningBuilder) : Except SigningError SigningConfig :=
  match b.keyed with
  | .error e => .error e
  | .ok c => c.validate.map fun _ => c

end SigningBuilder

end SignedHttp
