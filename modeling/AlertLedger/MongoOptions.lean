import AlertLedger.IntegerText

namespace AlertLedger

inductive MongoReadMode
  | primary
  | primaryPreferred
  | secondary
  | secondaryPreferred
  | nearest
deriving DecidableEq

namespace MongoReadMode

def all : List MongoReadMode :=
  [primary, primaryPreferred, secondary, secondaryPreferred, nearest]

def name : MongoReadMode → String
  | primary => "primary"
  | primaryPreferred => "primarypreferred"
  | secondary => "secondary"
  | secondaryPreferred => "secondarypreferred"
  | nearest => "nearest"

def ofName? (text : String) : Option MongoReadMode := all.find? fun m => m.name = text.toLower

end MongoReadMode

/-- A way to prove who one is: by an answer to a challenge, by a certificate, by the password
itself, or by a token. -/
inductive MongoMechanism
  | challenge
  | scramSha1
  | scramSha256
  | certificate
  | plain
  | token
deriving DecidableEq

namespace MongoMechanism

def all : List MongoMechanism := [challenge, scramSha1, scramSha256, certificate, plain, token]

def name : MongoMechanism → String
  | challenge => "MONGODB-CR"
  | scramSha1 => "SCRAM-SHA-1"
  | scramSha256 => "SCRAM-SHA-256"
  | certificate => "MONGODB-X509"
  | plain => "PLAIN"
  | token => "MONGODB-OIDC"

def ofName? (text : String) : Option MongoMechanism := all.find? fun m => m.name = text

end MongoMechanism

/-- What an address may say about the client behind its hosts. -/
inductive MongoOption
  | appName
  | authMechanism
  | authMechanismProperties
  | authSource
  | connectTimeout
  | directConnection
  | enableOverloadRetargeting
  | heartbeatFrequency
  | journal
  | loadBalanced
  | localThreshold
  | maxAdaptiveRetries
  | maxConnecting
  | maxIdleTime
  | maxPoolSize
  | maxStaleness
  | minPoolSize
  | readConcernLevel
  | readPreference
  | readPreferenceTags
  | replicaSet
  | retryReads
  | retryWrites
  | serverMonitoringMode
  | serverSelectionTimeout
  | ssl
  | tls
  | tlsAllowInvalidCertificates
  | tlsAuthorities
  | tlsCertificateKey
  | tlsInsecure
  | uuidRepresentation
  | waitQueueTimeout
  | writeConcern
  | writeTimeout
deriving DecidableEq

namespace MongoOption

def all : List MongoOption := [
  appName, authMechanism, authMechanismProperties, authSource, connectTimeout, directConnection,
  enableOverloadRetargeting, heartbeatFrequency, journal, loadBalanced, localThreshold,
  maxAdaptiveRetries, maxConnecting, maxIdleTime, maxPoolSize, maxStaleness, minPoolSize,
  readConcernLevel, readPreference, readPreferenceTags, replicaSet, retryReads, retryWrites,
  serverMonitoringMode, serverSelectionTimeout, ssl, tls, tlsAllowInvalidCertificates,
  tlsAuthorities, tlsCertificateKey, tlsInsecure, uuidRepresentation, waitQueueTimeout,
  writeConcern, writeTimeout]

def name : MongoOption → String
  | appName => "appname"
  | authMechanism => "authmechanism"
  | authMechanismProperties => "authmechanismproperties"
  | authSource => "authsource"
  | connectTimeout => "connecttimeoutms"
  | directConnection => "directconnection"
  | enableOverloadRetargeting => "enableoverloadretargeting"
  | heartbeatFrequency => "heartbeatfrequencyms"
  | journal => "journal"
  | loadBalanced => "loadbalanced"
  | localThreshold => "localthresholdms"
  | maxAdaptiveRetries => "maxadaptiveretries"
  | maxConnecting => "maxconnecting"
  | maxIdleTime => "maxidletimems"
  | maxPoolSize => "maxpoolsize"
  | maxStaleness => "maxstalenessseconds"
  | minPoolSize => "minpoolsize"
  | readConcernLevel => "readconcernlevel"
  | readPreference => "readpreference"
  | readPreferenceTags => "readpreferencetags"
  | replicaSet => "replicaset"
  | retryReads => "retryreads"
  | retryWrites => "retrywrites"
  | serverMonitoringMode => "servermonitoringmode"
  | serverSelectionTimeout => "serverselectiontimeoutms"
  | ssl => "ssl"
  | tls => "tls"
  | tlsAllowInvalidCertificates => "tlsallowinvalidcertificates"
  | tlsAuthorities => "tlscafile"
  | tlsCertificateKey => "tlscertificatekeyfile"
  | tlsInsecure => "tlsinsecure"
  | uuidRepresentation => "uuidrepresentation"
  | waitQueueTimeout => "waitqueuetimeoutms"
  | writeConcern => "w"
  | writeTimeout => "wtimeoutms"

def ofName? (text : String) : Option MongoOption := all.find? fun o => o.name = text.toLower

end MongoOption

/-- What the options of an address say, as far as they restrict each other. -/
structure MongoOptions where
  authSource : Option String := none
  /-- a file with the certificates of those who certify servers -/
  authorities : Option String := none
  /-- a file with the client's own certificate and its key -/
  certificateKey : Option String := none
  direct : Bool := false
  /-- the milliseconds between two looks at a server -/
  heartbeat : Nat := 10000
  journal : Bool := false
  balanced : Bool := false
  maxConnecting : Option Nat := none
  maxPoolSize : Option Nat := none
  /-- how many seconds a server that is read may be behind -/
  maxStaleness : Option Nat := none
  mechanism : Option MongoMechanism := none
  mechanismProperties : List (String × String) := []
  readMode : Option MongoReadMode := none
  /-- tags of the servers that are read are given -/
  readTags : Bool := false
  replicaSet : Option String := none
  tls : Option Bool := none
  /-- certificates need not be valid -/
  trusting : Option Bool := none
  /-- how many servers acknowledge a write, if that is a number -/
  acknowledgments : Option Nat := none
deriving DecidableEq

namespace MongoOptions

def readFlag? (text : String) : Option Bool :=
  if text = "true" then some true
  else if text = "false" then some false
  else none

def readSpan? (text : String) : Option Nat := (readWord text).toOption.map (·.toNat)

/-- Reads a number below `2 ^ 32`. -/
def readCount? (text : String) : Option Nat :=
  (readSpan? text).filter fun n => decide (n < 4294967296)

def readPair? (text : String) : Option (String × String) :=
  match text.toList.dropWhile (· ≠ ':') with
  | [] => none
  | _ :: value => some (.ofList (text.toList.takeWhile (· ≠ ':')), .ofList value)

def readPairs? (text : String) : Option (List (String × String)) :=
  (text.splitOn ",").mapM readPair?

/-- Reads how many servers acknowledge a write. What is no number of 32 bits is a name. -/
def readAcknowledgments? (text : String) : Option (Option Nat) :=
  match readSignedWord text with
  | .error _ => some none
  | .ok n =>
    if n < -2147483648 ∨ 2147483647 < n then some none
    else if n < 0 then none
    else some (some n.toNat)

/-- Properties that cannot be written in an address. -/
def unwritableProperties : List String := ["ALLOWED_HOSTS", "OIDC_CALLBACK", "OIDC_HUMAN_CALLBACK"]

/-- Wants encryption, or wants none. Both cannot be wanted. -/
def setTls? (wanted : Bool) (o : MongoOptions) : Option MongoOptions :=
  if o.tls = some (!wanted) then none else some { o with tls := some wanted }

/-- Says once whether certificates need not be valid, which goes with encryption. -/
def setTrusting? (trusting : Bool) (o : MongoOptions) : Option MongoOptions :=
  if o.trusting.isSome then none
  else (o.setTls? true).map fun o => { o with trusting := some trusting }

/-- The options with one more, if it has a value of its kind and does not contradict those before
it. -/
def set? (option : MongoOption) (value : String) (o : MongoOptions) : Option MongoOptions :=
  match option with
  | .appName | .readConcernLevel => some o
  | .authMechanism =>
    (MongoMechanism.ofName? value).map fun m => { o with mechanism := some m }
  | .authMechanismProperties =>
    match readPairs? value with
    | none => none
    | some pairs =>
      if pairs.any fun p => unwritableProperties.contains p.1 then none
      else some { o with mechanismProperties := pairs }
  | .authSource => if value.isEmpty then none else some { o with authSource := some value }
  | .connectTimeout | .localThreshold | .maxIdleTime | .serverSelectionTimeout
  | .waitQueueTimeout | .writeTimeout => (readSpan? value).map fun _ => o
  | .directConnection => (readFlag? value).map fun b => { o with direct := b }
  | .enableOverloadRetargeting => (readFlag? value).map fun _ => o
  | .heartbeatFrequency =>
    (readSpan? value).bind fun n => if n < 500 then none else some { o with heartbeat := n }
  | .journal => (readFlag? value).map fun b => { o with journal := b }
  | .loadBalanced => (readFlag? value).map fun b => { o with balanced := b }
  | .maxConnecting => (readCount? value).map fun n => { o with maxConnecting := some n }
  | .maxPoolSize => (readCount? value).map fun n => { o with maxPoolSize := some n }
  | .maxStaleness =>
    match readSignedWord value with
    | .error _ => none
    | .ok n =>
      if n < -1 then none
      else if n = -1 then some o
      else some { o with maxStaleness := some n.toNat }
  | .maxAdaptiveRetries | .minPoolSize => (readCount? value).map fun _ => o
  | .readPreference => (MongoReadMode.ofName? value).map fun m => { o with readMode := some m }
  | .readPreferenceTags =>
    if value.isEmpty || (readPairs? value).isSome then some { o with readTags := true } else none
  | .replicaSet => some { o with replicaSet := some value }
  | .retryReads | .retryWrites => (readFlag? value).map fun _ => o
  | .serverMonitoringMode =>
    if ["stream", "poll", "auto"].contains value.toLower then some o else none
  | .ssl | .tls => (readFlag? value).bind fun b => o.setTls? b
  | .tlsAllowInvalidCertificates | .tlsInsecure =>
    (readFlag? value).bind fun b => o.setTrusting? b
  | .tlsAuthorities => (o.setTls? true).map fun o => { o with authorities := some value }
  | .tlsCertificateKey => (o.setTls? true).map fun o => { o with certificateKey := some value }
  | .uuidRepresentation =>
    if ["csharplegacy", "javalegacy", "pythonlegacy"].contains value.toLower then some o else none
  | .writeConcern =>
    (readAcknowledgments? value).map fun w => { o with acknowledgments := w }

/-- A direct connection leads to one host. So does a balancer, which knows its servers itself: a
group is not named beside it, and none of its servers is reached directly. -/
def allowsHosts (count : Nat) (o : MongoOptions) : Bool :=
  (!o.direct || count ≤ 1) && (!o.balanced || (count ≤ 1 && o.replicaSet.isNone && !o.direct))

/-- A write that nobody acknowledges is not waited for in the journal. -/
def allowsWrites (o : MongoOptions) : Bool := !(o.acknowledgments = some 0 && o.journal)

/-- Tags and a delay are for those who may read other servers than the primary one. A delay is one
and a half minutes at least, and leaves ten seconds for a write between two looks at a server. -/
def allowsReads (o : MongoOptions) : Bool :=
  let plain := !o.readTags && o.maxStaleness.isNone
  match o.readMode with
  | none | some .primary => plain
  | some _ => o.maxStaleness.all fun n => 90 ≤ n && o.heartbeat + 10000 ≤ n * 1000

def allowsPool (o : MongoOptions) : Bool := o.maxPoolSize ≠ some 0 && o.maxConnecting ≠ some 0

/-- The value of a property of the mechanism, the last one if it is given more than once. -/
def property? (name : String) (o : MongoOptions) : Option String :=
  o.mechanismProperties.reverse.lookup name

/-- How a server's name is made canonical for the mechanism. -/
def allowsCanonicalNames (o : MongoOptions) : Bool :=
  (o.property? "CANONICALIZE_HOST_NAME").all fun value =>
    ["none", "forward", "forwardandreverse", "true", "false"].contains value.toLower

/-- The place that gives out tokens is a known one, and is told what a token is for if it has to
know. There are no other properties. -/
def allowsTokens (o : MongoOptions) : Bool :=
  let purpose := (o.property? "TOKEN_RESOURCE").isSome
  o.mechanismProperties.all (fun p => p.1 = "ENVIRONMENT" || p.1 = "TOKEN_RESOURCE") &&
    match o.property? "ENVIRONMENT" with
    | none => !purpose
    | some place => if place = "azure" || place = "gcp" then purpose else place = "k8s" && !purpose

/-- The user and the password suit the mechanism. `requested` tells that the address has a place for
a user; if that is empty, the mechanism has to be named. -/
def allowsUser (requested : Bool) (user password : Option String) (o : MongoOptions) : Bool :=
  let external := o.authSource.all (· = "$external")
  match o.mechanism with
  | none => user.isSome || !requested
  | some mechanism =>
    o.allowsCanonicalNames &&
      match mechanism with
      | .challenge => true
      | .scramSha1 | .scramSha256 => user.isSome
      | .certificate => password.isNone && external
      | .plain => user.isSome && password.isSome
      | .token => password.isNone && external && o.allowsTokens

end MongoOptions

end AlertLedger
