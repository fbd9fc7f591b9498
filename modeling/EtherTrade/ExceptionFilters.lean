import EtherTrade.BalancesService
import EtherTrade.KafkaConsumer
import EtherTrade.JsonTexts

/-!
# The filters for exceptions

A service's filter makes a gRPC status of an exception, with the message and the error code in
the details as JSON. The gateway's filter makes an HTTP response of the error that its call
ended with. The library between them is a structure with what the filters rely on.
-/

namespace EtherTrade.ExceptionFilters

open JsonValues JsonTexts StatusCodes
open BalancesService (isWhiteSpace trim)
open KafkaConsumer (includes)

/-! ### Exceptions -/

/-- `string | string[]` -/
inductive Message where
  | text (text : String)
  | texts (texts : List String)
  deriving DecidableEq, Repr

def Message.toJson : Message → Json
  | .text line => .string line
  | .texts lines => .array (lines.map Json.string)

def Message.join : Message → String
  | .text line => line
  | .texts lines => "; ".intercalate lines

/-- The response of an `HttpException`. A body may lack the message, or have it without a
value. -/
inductive HttpBody where
  | text (text : String)
  | object (message : Option (Option Message)) (errorCode : Option Json)

structure HttpException where
  status : ℕ
  response : HttpBody
  message : String

/-- The object that an `RpcException` is made of. A code that is no number is as none. -/
structure RpcError where
  code : Option ℕ
  message : Option Message
  details : Option String
  errorCode : Option Json

inductive RpcException where
  | text (text : String)
  | object (error : RpcError)

/-- What a handler of a service throws. -/
inductive Exception where
  | rpc (error : RpcException)
  | http (exception : HttpException)
  | error (message : String)
  | other

/-! ### Details of an error -/

structure ErrorDetailsPayload where
  message : Json
  errorCode : Option String

def extractErrorCode : Option Json → Option String
  | some (.string code) => if 0 < code.length then some code else none
  | _ => none

section Details

variable (numberText : JsonNumber → String) (numberOf : String → JsonNumber)

def serializeErrorDetails (message : Message) (errorCode : Option String) : String :=
  String.ofList (stringify numberText (.object (("message", message.toJson) ::
    match errorCode with
    | some code => if code = "" then [] else [("errorCode", .string code)]
    | none => [])))

/-- Only an object has a message. -/
def parseErrorDetails (details : String) : Option ErrorDetailsPayload := do
  let body ← parse numberOf details.toList
  let message ← body.get "message"
  return ⟨message, match body.get "errorCode" with
    | some (.string code) => some code
    | _ => none⟩

/-! ### The filter of a service -/

/-- What the filter sends. -/
structure GrpcFailure where
  code : ℕ
  message : String
  details : String
  deriving DecidableEq, Repr

namespace GrpcExceptionFilter

def codeOfHttpStatus : ℕ → ℕ
  | HttpStatus.badRequest => GrpcStatus.invalidArgument
  | HttpStatus.unauthorized => GrpcStatus.unauthenticated
  | HttpStatus.forbidden => GrpcStatus.permissionDenied
  | HttpStatus.notFound => GrpcStatus.notFound
  | HttpStatus.conflict => GrpcStatus.alreadyExists
  | HttpStatus.tooManyRequests => GrpcStatus.resourceExhausted
  | _ => GrpcStatus.internal

/-- Details without a text count as none. -/
def errorCodeOfRpc (error : RpcError) : Option String :=
  let fromDetails := match error.details with
    | some details =>
      if details = "" then none else (parseErrorDetails numberOf details).bind (·.errorCode)
    | none => none
  (extractErrorCode error.errorCode).or fromDetails

/-- The code, the message and the error code of an exception. -/
def normalize : Exception → ℕ × Message × Option String
  | .rpc (.object error) =>
    (error.code.getD GrpcStatus.internal, error.message.getD (.text "Internal server error"),
      errorCodeOfRpc numberOf error)
  | .rpc (.text text) => (GrpcStatus.internal, .text text, none)
  | .http exception =>
    let (message, errorCode) := match exception.response with
      | .text text => (.text text, none)
      | .object (some message) errorCode =>
        (message.getD (.text exception.message), extractErrorCode errorCode)
      | .object none _ => (.text exception.message, none)
    (codeOfHttpStatus exception.status, message, errorCode)
  | .error message => (GrpcStatus.internal, .text message, none)
  | .other => (GrpcStatus.internal, .text "Internal server error", none)

def catchException (exception : Exception) : GrpcFailure :=
  let (code, message, errorCode) := normalize numberOf exception
  ⟨code, message.join, serializeErrorDetails numberText message errorCode⟩

end GrpcExceptionFilter

/-! ### The filter of the gateway -/

/-- The error that a call of a service ends with. -/
structure GrpcCallError where
  code : ℕ
  details : String
  message : String
  deriving DecidableEq, Repr

/-- What a handler of the gateway throws. -/
inductive GatewayException where
  | http (exception : HttpException)
  | grpc (error : GrpcCallError)
  | timeout
  | error (name message : String)
  | other

/-- The body of the response, without its time, its path and the status in words. -/
structure HttpErrorResponseBody where
  statusCode : ℕ
  message : Json
  errorCode : Option String

namespace HttpExceptionFilter

def knownGrpcServices : ℕ → Option (String × String)
  | 50051 => some ("identity", "pnpm start:dev:identity")
  | 50052 => some ("accounts", "pnpm start:dev:accounts")
  | 50053 => some ("orders", "pnpm start:dev:orders")
  | _ => none

def grpcToHttpStatus : ℕ → Option ℕ
  | GrpcStatus.ok => some HttpStatus.ok
  | GrpcStatus.cancelled => some HttpStatus.requestTimeout
  | GrpcStatus.unknown => some HttpStatus.badGateway
  | GrpcStatus.invalidArgument => some HttpStatus.badRequest
  | GrpcStatus.deadlineExceeded => some HttpStatus.gatewayTimeout
  | GrpcStatus.notFound => some HttpStatus.notFound
  | GrpcStatus.alreadyExists => some HttpStatus.conflict
  | GrpcStatus.permissionDenied => some HttpStatus.forbidden
  | GrpcStatus.resourceExhausted => some HttpStatus.tooManyRequests
  | GrpcStatus.failedPrecondition => some HttpStatus.badRequest
  | GrpcStatus.aborted => some HttpStatus.conflict
  | GrpcStatus.outOfRange => some HttpStatus.badRequest
  | GrpcStatus.unimplemented => some HttpStatus.notImplemented
  | GrpcStatus.internal => some HttpStatus.internalServerError
  | GrpcStatus.unavailable => some HttpStatus.serviceUnavailable
  | GrpcStatus.dataLoss => some HttpStatus.internalServerError
  | GrpcStatus.unauthenticated => some HttpStatus.unauthorized
  | _ => none

def isTimeoutError (name message : String) : Bool :=
  name = "TimeoutError" || includes message.toLower "timeout"

def isConnectionRefused (message details : String) : Bool :=
  let text := message ++ " " ++ details
  includes text "ECONNREFUSED" || includes text "No connection established"

/-- The number in the first match of `/:(\d{5})/`. -/
def portMatch : List Char → Option ℕ
  | [] => none
  | c :: rest =>
    if c = ':' ∧ 5 ≤ rest.length ∧ (rest.take 5).all Char.isDigit then
      some ((rest.take 5).foldl (fun port digit => port * 10 + (digit.toNat - 48)) 0)
    else portMatch rest

def upstreamUnavailable : String :=
  "Upstream microservice is currently unavailable. " ++
    "Please verify downstream services are running."

def formatUnavailableMessage (details message : String) : String :=
  match portMatch (details ++ " " ++ message).toList with
  | some port =>
    match knownGrpcServices port with
    | some (name, command) =>
      "Upstream microservice '" ++ name ++ "' (port " ++ toString port ++
        ") is unavailable. Please ensure '" ++ command ++ "' is running."
    | none =>
      "Upstream microservice on port " ++ toString port ++
        " is unavailable (connection refused)."
  | none => upstreamUnavailable

/-- `replace(/^\d+\s+[A-Z_]+:\s*/, '')` -/
def withoutStatus (text : List Char) : List Char :=
  let (code, rest) := text.span Char.isDigit
  let (spaces, rest) := rest.span isWhiteSpace
  let (name, rest) := rest.span fun c => c.isUpper || c = '_'
  match rest with
  | ':' :: rest =>
    if code = [] ∨ spaces = [] ∨ name = [] then text else rest.dropWhile isWhiteSpace
  | _ => text

def extractGrpcErrorPayload (error : GrpcCallError) : ErrorDetailsPayload :=
  if error.details ≠ "" then
    (parseErrorDetails numberOf error.details).getD ⟨.string error.details, none⟩
  else
    let cleaned := trim (String.ofList (withoutStatus error.message.toList))
    ⟨.string (if cleaned = "" then error.message else cleaned), none⟩

/-- An error code without a text is left out of the response. -/
def respond (statusCode : ℕ) (message : Json) (errorCode : Option String) :
    HttpErrorResponseBody :=
  ⟨statusCode, message, errorCode.filter (· ≠ "")⟩

def catchException (isProduction : Bool) : GatewayException → HttpErrorResponseBody
  | .http exception =>
    match exception.response with
    | .text text => respond exception.status (.string text) none
    | .object message errorCode =>
      respond exception.status (message.join.getD (.text exception.message)).toJson
        (extractErrorCode errorCode)
  | .grpc error =>
    if error.code = GrpcStatus.unavailable ∨
        isConnectionRefused error.message error.details = true then
      respond HttpStatus.serviceUnavailable
        (.string (formatUnavailableMessage error.details error.message)) none
    else
      let extracted := extractGrpcErrorPayload numberOf error
      respond ((grpcToHttpStatus error.code).getD HttpStatus.badGateway) extracted.message
        extracted.errorCode
  | .timeout =>
    respond HttpStatus.gatewayTimeout (.string "Upstream microservice request timed out")
      (some "DEADLINE_EXCEEDED")
  | .error name message =>
    if isTimeoutError name message then
      respond HttpStatus.gatewayTimeout (.string "Upstream microservice request timed out")
        (some "DEADLINE_EXCEEDED")
    else if isConnectionRefused message "" then
      respond HttpStatus.serviceUnavailable (.string (formatUnavailableMessage "" message)) none
    else
      respond HttpStatus.internalServerError
        (.string (if isProduction then "Internal server error" else message)) none
  | .other => respond HttpStatus.internalServerError (.string "Internal server error") none

end HttpExceptionFilter

/-! ### From a service to the gateway -/

/-- The library that carries a failed call. A call with the code of success does not fail for
its code, and no error has that code. -/
structure GrpcChannel where
  deliver : GrpcFailure → GrpcCallError
  delivered : ∀ failure, failure.code ≠ GrpcStatus.ok → deliver failure =
    ⟨failure.code, failure.details, toString failure.code ++ " " ++
      (GrpcStatus.names[failure.code]?).getD "undefined" ++ ": " ++ failure.details⟩
  failed : ∀ failure, (deliver failure).code ≠ GrpcStatus.ok

/-- What a client of the gateway gets for an exception of a service. -/
def responseOf (channel : GrpcChannel) (isProduction : Bool) (exception : Exception) :
    HttpErrorResponseBody :=
  HttpExceptionFilter.catchException numberOf isProduction
    (.grpc (channel.deliver
      (GrpcExceptionFilter.catchException numberText numberOf exception)))

end Details

end EtherTrade.ExceptionFilters
