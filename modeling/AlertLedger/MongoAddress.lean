import AlertLedger.Ipv6Text
import AlertLedger.MongoOptions

namespace AlertLedger

inductive MongoHost
  /-- a name or number in the network, and the number of the service -/
  | network (name : String) (service : Option UInt64)
  /-- a file of this machine that leads to the server -/
  | socket (path : String)
deriving DecidableEq

namespace MongoHost

def readService? (text : List Char) : Option UInt64 :=
  match readWord (.ofList text) with
  | .ok n => if 0 < n && n < 65536 then some n else none
  | .error _ => none

/-- Reads the number of a service behind a colon, if there is anything to read. -/
def network? (name : List Char) : List Char → Option MongoHost
  | [] => some (.network (.ofList name) none)
  | ':' :: service => (readService? service).map fun n => .network (.ofList name) (some n)
  | _ => none

/-- Reads a file's name by its ending, a number in brackets, or a name that is not empty. -/
def ofText? (cs : List Char) : Option MongoHost :=
  if ".sock".toList.isSuffixOf cs then (percentText? cs).map .socket
  else
    match cs with
    | '[' :: number =>
      match number.dropWhile (· ≠ ']') with
      | [] => none
      | _ :: rest =>
        let number := number.takeWhile (· ≠ ']')
        if isIpv6 number then network? number rest else none
    | cs =>
      let name := cs.takeWhile (· ≠ ':')
      if name.isEmpty then none else network? name (cs.dropWhile (· ≠ ':'))

end MongoHost

/-- Where a group of servers is found, and how a client deals with it. -/
structure MongoAddress where
  hosts : List MongoHost
  user : Option String
  password : Option String
  database : Option String
  options : MongoOptions
deriving DecidableEq

namespace MongoAddress

/-- What stands before the first such character, and what stands behind it if it is there. -/
def splitAtFirst (c : Char) (cs : List Char) : List Char × Option (List Char) :=
  (cs.takeWhile (· ≠ c),
    match cs.dropWhile (· ≠ c) with
    | [] => none
    | _ :: behind => some behind)

/-- What stands before the last at sign if there is one, and what stands behind it. -/
def splitAtLastAt (cs : List Char) : Option (List Char) × List Char :=
  let behind := (cs.reverse.takeWhile (· ≠ '@')).reverse
  (match cs.reverse.dropWhile (· ≠ '@') with
    | [] => none
    | _ :: before => some before.reverse, behind)

/-- Reads a user's name or password, in which what separates the parts of an address is written
with percent signs. -/
def readSecret? (cs : List Char) : Option String :=
  if cs.any [':', '/', '?', '#', '[', ']', '@'].contains || !percentsComplete cs then none
  else percentText? cs

/-- Reads a user's name, and perhaps a password behind a colon. A password without a name is read
and then left out. -/
def readUser? (cs : List Char) : Option (Option String × Option String) :=
  let parts := splitAtFirst ':' cs
  match readSecret? parts.1, parts.2.map readSecret? with
  | none, _ | _, some none => none
  | some user, password =>
    if user.isEmpty then some (none, none) else some (some user, password.join)

/-- Reads the name of a database, if there is anything to read. -/
def readDatabase? (cs : List Char) : Option (Option String) :=
  if cs.isEmpty then some none
  else
    match percentText? cs with
    | none => none
    | some name =>
      if name.toList.any ['/', '\\', ' ', '"', '$'].contains then none else some (some name)

/-- Reads options one after the other. Only one of them may be given again; `given` holds those so
far. -/
def readOptions? (given : List MongoOption) : List String → MongoOptions → Option MongoOptions
  | [], o => some o
  | text :: rest, o =>
    let parts := splitAtFirst '=' text.toList
    match parts.2, MongoOption.ofName? (.ofList parts.1) with
    | some value, some option =>
      if given.contains option && option ≠ .readPreferenceTags then none
      else (o.set? option (percentText value)).bind (readOptions? (option :: given) rest)
    | _, _ => none

/-- Reads an address: a user before the last at sign, hosts with commas between them, a database
behind a slash, and options behind a question mark. An address whose hosts have to be looked up by
name is not read. -/
def ofText? (uri : String) : Option MongoAddress := do
  let scheme := "mongodb://"
  guard (scheme.toList.isPrefixOf uri.toList)
  let parts := splitAtFirst '?' (uri.toList.drop scheme.length)
  let place := splitAtLastAt parts.1
  let found := splitAtFirst '/' place.2
  let hosts ← ((String.ofList found.1).splitOn ",").mapM fun host => MongoHost.ofText? host.toList
  let user ← readUser? (place.1.getD [])
  let database ← readDatabase? (found.2.getD [])
  let options := String.ofList (parts.2.getD [])
  let options ←
    if options.isEmpty then some {} else readOptions? [] (options.splitOn "&") {}
  guard (options.allowsHosts hosts.length && options.allowsWrites && options.allowsReads &&
    options.allowsPool && options.allowsUser place.1.isSome user.1 user.2)
  return ⟨hosts, user.1, user.2, database, options⟩

end MongoAddress

end AlertLedger
