import Mathlib.Data.String.Basic
import MexcApi.SortedMap

/-!
# The query strings of the HTTP sessions

`createQueryStr` of both sessions, and what they sign. The parameters are an
`std::map` from names to values. The HMAC of the crypto library, with SHA-256,
and `stringToHex` are parameters.
-/

namespace MexcApi

abbrev Parameters := SortedMap String String

/-- The body of `createQueryStr`, which is the same in both sessions. -/
def queryStr (parameters : Parameters) : String :=
  let queryStr := parameters.entries.foldl (fun queryStr p => queryStr ++ p.1 ++ "=" ++ p.2 ++ "&") ""
  if queryStr.isEmpty then queryStr else String.ofList queryStr.toList.dropLast

structure Crypto where
  HMAC : String → String → Vector UInt8 32
  stringToHex : Vector UInt8 32 → String

/-- `http::verb`, as far as it is used. -/
inductive Verb
  | get
  | post
  | put
  | delete_
  deriving DecidableEq, Repr

/-- `http::request`, with the fields that are set. -/
structure Request where
  method : Verb
  target : String
  fields : List (String × String)
  deriving DecidableEq, Repr

namespace Spot.HTTPSession

structure P where
  apiKey : String
  apiSecret : String

namespace P

def createQueryStr (parameters : Parameters) : String := queryStr parameters

/-- What `sign` passes to the HMAC: the parameters with the time. -/
def parameterString (ts : Int) (parameters : Parameters) : String :=
  createQueryStr (parameters.insertOrAssign "timestamp" (toString ts))

def sign (C : Crypto) (p : P) (ts : Int) (parameters : Parameters) : Parameters :=
  let digest := C.HMAC p.apiSecret (parameterString ts parameters)
  (parameters.insertOrAssign "timestamp" (toString ts)).insertOrAssign "signature" (C.stringToHex digest)

/-- The request, and the parameters that the caller gets back. -/
def createRequest (C : Crypto) (p : P) (ts : Int) (method : Verb) (path : String) (parameters : Parameters)
    (isPublic : Bool) : Request × Parameters :=
  let parameters := if isPublic then parameters else p.sign C ts parameters
  let queryString := createQueryStr parameters
  let finalPath := if queryString.isEmpty then path else path ++ "?" ++ queryString
  (⟨method, finalPath, if isPublic then [] else [("X-MEXC-APIKEY", p.apiKey)]⟩, parameters)

end P

end Spot.HTTPSession

namespace Futures.HTTPSession.P

def createQueryStr (parameters : Parameters) : String := queryStr parameters

/-- What `authenticateGet` passes to the HMAC. -/
def strToSign (apiKey : String) (ts : Int) (parameters : Parameters) : String :=
  apiKey ++ toString ts ++ createQueryStr parameters

end Futures.HTTPSession.P

end MexcApi
