import Mathlib.Data.Finmap
import NetSentry.Lib.StdString

/-!
# `parseQueryParams` in words of 64 bits

`parseQueryParams` with its positions as they are computed: `size_t`, with `npos` among them, and
modulo `2 ^ 64`.
-/

namespace NetSentry.QueryWords

open Checked StdString

/-- What a piece of the query adds to the parameters. -/
def addParam (params : Finmap fun _ : Bytes => Bytes) (param : StdString) :
    Checked (Finmap fun _ : Bytes => Bytes) :=
  let eqPos := param.find 61 0
  if eqPos ≠ npos then do
    let key ← param.substr 0 eqPos
    let value ← param.substr (eqPos + 1) npos
    pure (params.insert key.1 value.1)
  else pure params

/-- The loop of `parseQueryParams`, in at most `fuel` tests of its condition; `none` where it takes
more. -/
def paramsLoop (query : StdString) :
    ℕ → Finmap (fun _ : Bytes => Bytes) → UInt64 → UInt64 →
      Option (Checked (Finmap fun _ : Bytes => Bytes))
  | 0, _, _, _ => none
  | fuel + 1, params, start, stop =>
    if start < query.length then
      match query.substr start (stop - start) >>= addParam params with
      | .error fault => some (.error fault)
      | .ok params =>
        let start := stop + 1
        if stop = npos then some (.ok params)
        else
          let stop := query.find 38 start
          let stop := if stop = npos then query.length else stop
          paramsLoop query fuel params start stop
    else some (.ok params)

/-- `ServerImpl::Session::parseQueryParams`. -/
def parseQueryParams (fuel : ℕ) (query : StdString) (params : Finmap fun _ : Bytes => Bytes) :
    Option (Checked (Finmap fun _ : Bytes => Bytes)) :=
  paramsLoop query fuel params 0 (query.find 38 0)

end NetSentry.QueryWords
