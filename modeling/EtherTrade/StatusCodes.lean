import Mathlib.Data.Nat.Notation

/-!
# Status codes

The status codes of gRPC and those of HTTP that the services and the gateway name.
-/

namespace EtherTrade.StatusCodes

namespace GrpcStatus

@[match_pattern] abbrev ok : ℕ := 0
@[match_pattern] abbrev cancelled : ℕ := 1
@[match_pattern] abbrev unknown : ℕ := 2
@[match_pattern] abbrev invalidArgument : ℕ := 3
@[match_pattern] abbrev deadlineExceeded : ℕ := 4
@[match_pattern] abbrev notFound : ℕ := 5
@[match_pattern] abbrev alreadyExists : ℕ := 6
@[match_pattern] abbrev permissionDenied : ℕ := 7
@[match_pattern] abbrev resourceExhausted : ℕ := 8
@[match_pattern] abbrev failedPrecondition : ℕ := 9
@[match_pattern] abbrev aborted : ℕ := 10
@[match_pattern] abbrev outOfRange : ℕ := 11
@[match_pattern] abbrev unimplemented : ℕ := 12
@[match_pattern] abbrev internal : ℕ := 13
@[match_pattern] abbrev unavailable : ℕ := 14
@[match_pattern] abbrev dataLoss : ℕ := 15
@[match_pattern] abbrev unauthenticated : ℕ := 16

/-- The enumeration's names, in its order. -/
def names : List String :=
  ["OK", "CANCELLED", "UNKNOWN", "INVALID_ARGUMENT", "DEADLINE_EXCEEDED", "NOT_FOUND",
    "ALREADY_EXISTS", "PERMISSION_DENIED", "RESOURCE_EXHAUSTED", "FAILED_PRECONDITION",
    "ABORTED", "OUT_OF_RANGE", "UNIMPLEMENTED", "INTERNAL", "UNAVAILABLE", "DATA_LOSS",
    "UNAUTHENTICATED"]

end GrpcStatus

namespace HttpStatus

@[match_pattern] abbrev ok : ℕ := 200
@[match_pattern] abbrev badRequest : ℕ := 400
@[match_pattern] abbrev unauthorized : ℕ := 401
@[match_pattern] abbrev paymentRequired : ℕ := 402
@[match_pattern] abbrev forbidden : ℕ := 403
@[match_pattern] abbrev notFound : ℕ := 404
@[match_pattern] abbrev requestTimeout : ℕ := 408
@[match_pattern] abbrev conflict : ℕ := 409
@[match_pattern] abbrev tooManyRequests : ℕ := 429
@[match_pattern] abbrev internalServerError : ℕ := 500
@[match_pattern] abbrev notImplemented : ℕ := 501
@[match_pattern] abbrev badGateway : ℕ := 502
@[match_pattern] abbrev serviceUnavailable : ℕ := 503
@[match_pattern] abbrev gatewayTimeout : ℕ := 504

end HttpStatus

end EtherTrade.StatusCodes
