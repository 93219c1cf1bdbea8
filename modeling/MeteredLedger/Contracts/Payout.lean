/-!
# The payout contract

A template that pays one of two addresses. Which one depends on whether the
timestamp of a block is even or odd.
-/

namespace MeteredLedger.Contracts

/-- The source text of the payout contract. -/
def payout : String := String.join
  ["# Pay one of two addresses depending on a block's timestamp parity.\n",
    "#\n",
    "# Arguments:\n",
    "#   block      serialized block (see `gleam block`)\n",
    "#   even_addr  paid when the timestamp is even\n",
    "#   odd_addr   paid when the timestamp is odd\n",
    "\n",
    "<block>\n",
    "STORE 0\n",
    "<even_addr>\n",
    "STORE 1\n",
    "<odd_addr>\n",
    "STORE 2\n",
    "\n",
    "LOAD 0\n",
    "TIMESTAMP\n",
    "PUSH 2\n",
    "MOD\n",
    "JNZ odd\n",
    "\n",
    "LOAD 1\n",
    "JUMP end\n",
    "\n",
    "odd:\n",
    "LOAD 2\n",
    "\n",
    "end:\n",
    "RETURN\n"]

end MeteredLedger.Contracts
